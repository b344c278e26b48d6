import PkgConfig.Text.Segment

namespace PkgConfig.Text

/-! A line break ends a line; a carriage return in front of it is part of the
break. -/

def withoutReturn (line : List Char) : List Char :=
  if line.getLast? == some '\r' then line.dropLast else line

/-- The lines among the segments of a text. All but the last segment were ended
by a break. An empty last one is no line. -/
def endedLines : List (List Char) → List (List Char)
  | [] => []
  | [last] => if last.isEmpty then [] else [last]
  | segment :: rest => withoutReturn segment :: endedLines rest

def lines (text : String) : List String :=
  (endedLines (cutSegments (· == '\n') text.toList)).map String.ofList

example : lines "a\r\n\nb\r" = ["a", "", "b\r"] ∧ lines "a\n" = ["a"] := by
  decide

def firstLine (text : String) : String := (lines text).headD ""

end PkgConfig.Text
