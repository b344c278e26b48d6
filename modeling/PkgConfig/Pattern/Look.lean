namespace PkgConfig

/-! Conditions on places in a text. -/

structure Sides where
  before : Option Char
  behind : Option Char
  deriving DecidableEq, Repr

/-- A condition on a place. The words it speaks of are ASCII words. -/
inductive Look where
  | textStart
  | textEnd
  | lineStart
  | lineEnd
  | returnedLineStart
  | returnedLineEnd
  | wordBoundary
  | notWordBoundary
  | wordStart
  | wordEnd
  | wordStartHalf
  | wordEndHalf
  deriving DecidableEq, Repr

namespace Look

def isWordCharacter (character : Char) : Bool :=
  character.isAlphanum || character == '_'

def holds (sides : Sides) (look : Look) : Bool :=
  let wordBefore := sides.before.any isWordCharacter
  let wordBehind := sides.behind.any isWordCharacter
  match look with
  | .textStart => sides.before.isNone
  | .textEnd => sides.behind.isNone
  | .lineStart => sides.before.all (· == '\n')
  | .lineEnd => sides.behind.all (· == '\n')
  | .returnedLineStart =>
      sides.before.all (· == '\n') ||
        (sides.before == some '\r' && sides.behind != some '\n')
  | .returnedLineEnd =>
      sides.behind.all (· == '\r') ||
        (sides.behind == some '\n' && sides.before != some '\r')
  | .wordBoundary => wordBefore != wordBehind
  | .notWordBoundary => wordBefore == wordBehind
  | .wordStart => !wordBefore && wordBehind
  | .wordEnd => wordBefore && !wordBehind
  | .wordStartHalf => !wordBefore
  | .wordEndHalf => !wordBehind

end Look

end PkgConfig
