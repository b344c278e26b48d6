import PkgConfig.Text.Line

namespace PkgConfig.Pattern

/-! Faults in the text of a pattern, and the report that shows where they are. -/

/-! ## Spans -/

structure Point where
  line : Nat
  column : Nat
  offset : Nat
  deriving DecidableEq, Repr

namespace Point

def start : Point := ⟨1, 1, 0⟩

def after (point : Point) (character : Char) : Point :=
  if character == '\n' then ⟨point.line + 1, 1, point.offset + 1⟩
  else ⟨point.line, point.column + 1, point.offset + 1⟩

end Point

structure Span where
  first : Point
  stop : Point
  deriving DecidableEq, Repr

namespace Span

def isOnOneLine (span : Span) : Bool := span.first.line == span.stop.line

def width (span : Span) : Nat := max 1 (span.stop.column - span.first.column)

end Span

/-! ## Causes -/

def nestingLimit : Nat := 250

inductive Cause where
  | classEscapeInvalid
  | classRangeInvalid
  | classRangeLiteral
  | classUnclosed
  | decimalEmpty
  | decimalInvalid
  | escapeHexEmpty
  | escapeHexInvalid
  | escapeHexInvalidDigit
  | escapeUnexpectedEnd
  | escapeUnrecognized
  | flagDanglingNegation
  | flagDuplicate
  | flagRepeatedNegation
  | flagUnexpectedEnd
  | flagUnrecognized
  | groupNameDuplicate
  | groupNameEmpty
  | groupNameInvalid
  | groupNameUnexpectedEnd
  | groupUnclosed
  | groupUnopened
  | nestingExceeded
  | repetitionCountInvalid
  | repetitionCountUnclosed
  | repetitionMissing
  | wordBoundaryUnclosed
  | wordBoundaryUnrecognized
  | wordBoundaryUnexpectedEnd
  | propertyInvalid
  | backreference
  | lookAround
  | unicodeNotAllowed
  | invalidUtf8
  | propertyNotFound
  | propertyValueNotFound
  | shorthandUnavailable
  | caseUnavailable
  deriving DecidableEq, Repr

def Cause.message : Cause → String
  | .classEscapeInvalid => "invalid escape sequence found in character class"
  | .classRangeInvalid =>
      "invalid character class range, the start must be <= the end"
  | .classRangeLiteral => "invalid range boundary, must be a literal"
  | .classUnclosed => "unclosed character class"
  | .decimalEmpty => "repetition quantifier expects a valid decimal"
  | .decimalInvalid => "decimal literal invalid"
  | .escapeHexEmpty => "hexadecimal literal empty"
  | .escapeHexInvalid => "hexadecimal literal is not a Unicode scalar value"
  | .escapeHexInvalidDigit => "invalid hexadecimal digit"
  | .escapeUnexpectedEnd =>
      "incomplete escape sequence, reached end of pattern prematurely"
  | .escapeUnrecognized => "unrecognized escape sequence"
  | .flagDanglingNegation => "dangling flag negation operator"
  | .flagDuplicate => "duplicate flag"
  | .flagRepeatedNegation => "flag negation operator repeated"
  | .flagUnexpectedEnd => "expected flag but got end of regex"
  | .flagUnrecognized => "unrecognized flag"
  | .groupNameDuplicate => "duplicate capture group name"
  | .groupNameEmpty => "empty capture group name"
  | .groupNameInvalid => "invalid capture group character"
  | .groupNameUnexpectedEnd => "unclosed capture group name"
  | .groupUnclosed => "unclosed group"
  | .groupUnopened => "unopened group"
  | .nestingExceeded =>
      s!"exceed the maximum number of nested parentheses/brackets ({nestingLimit})"
  | .repetitionCountInvalid =>
      "invalid repetition count range, the start must be <= the end"
  | .repetitionCountUnclosed => "unclosed counted repetition"
  | .repetitionMissing => "repetition operator missing expression"
  | .wordBoundaryUnclosed =>
      "special word boundary assertion is either unclosed or contains an invalid character"
  | .wordBoundaryUnrecognized =>
      "unrecognized special word boundary assertion, valid choices are: start, end, start-half or end-half"
  | .wordBoundaryUnexpectedEnd =>
      "found either the beginning of a special word boundary or a bounded repetition on a \\b with an opening brace, but no closing brace"
  | .propertyInvalid => "invalid Unicode character class"
  | .backreference => "backreferences are not supported"
  | .lookAround =>
      "look-around, including look-ahead and look-behind, is not supported"
  | .unicodeNotAllowed => "Unicode not allowed here"
  | .invalidUtf8 => "pattern can match invalid UTF-8"
  | .propertyNotFound => "Unicode property not found"
  | .propertyValueNotFound => "Unicode property value not found"
  | .shorthandUnavailable =>
      "Unicode-aware Perl class not found (make sure the unicode-perl feature is enabled)"
  | .caseUnavailable =>
      "Unicode-aware case insensitivity matching is not available (make sure the unicode-case feature is enabled)"

structure Fault where
  cause : Cause
  span : Span
  earlier : Option Span
  deriving DecidableEq, Repr

/-! ## Reports -/

def spaces (count : Nat) : String := String.ofList (List.replicate count ' ')

def marks : Nat → List Span → String
  | _, [] => ""
  | column, span :: rest =>
      let gap := span.first.column - column
      spaces gap ++ String.ofList (List.replicate span.width '^') ++
        marks (column + gap + span.width) rest

def annotated (label : Nat → String) (spans : List Span) :
    Nat → List String → String
  | _, [] => ""
  | number, line :: rest =>
      let own := spans.filter fun span =>
        span.isOnOneLine && span.first.line == number
      let indent := spaces (label number).length
      let notes := if own.isEmpty then "" else indent ++ marks 1 own ++ "\n"
      label number ++ line ++ "\n" ++ notes ++
        annotated label spans (number + 1) rest

def lineLabel (width number : Nat) : String :=
  let digits := toString number
  spaces (width - digits.length) ++ digits ++ ": "

def divider : String := String.ofList (List.replicate 79 '~') ++ "\n"

def Span.note (span : Span) : String :=
  let firstLine := span.first.line
  let firstColumn := span.first.column
  let lastLine := span.stop.line
  let lastColumn := span.stop.column - 1
  s!"on line {firstLine} (column {firstColumn}) through line {lastLine} (column {lastColumn})\n"

namespace Fault

def spans (fault : Fault) : List Span := fault.earlier.toList ++ [fault.span]

/-- A report on a fault in a text. The lines of a text of several lines are
numbered; what follows the last line break counts as a line. -/
def report (fault : Fault) (text : String) : String :=
  let lines := Text.lines text
  let body :=
    if text.contains '\n' then
      let count := lines.length + (if text.endsWith "\n" then 1 else 0)
      let label := lineLabel (toString count).length
      divider ++ annotated label fault.spans 1 lines ++ divider ++
        String.join ((fault.spans.filter (!·.isOnOneLine)).map Span.note)
    else
      annotated (fun _ => spaces 4) fault.spans 1 lines
  "regex parse error:\n" ++ body ++ "error: " ++ fault.cause.message

end Fault

end PkgConfig.Pattern
