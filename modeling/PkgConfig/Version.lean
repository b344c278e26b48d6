namespace PkgConfig

/-! Versions are plain text. They are ordered piece by piece: digit runs as
numerals, everything else by character. A version that continues another one
is newer. -/

/-! ## Pieces -/

inductive VersionPiece where
  | number (first : Char) (rest : List Char)
      (digits : (first :: rest).all Char.isDigit = true)
  | mark (symbol : Char) (plain : symbol.isDigit = false)

namespace VersionPiece

def characters : VersionPiece → List Char
  | .number first rest _ => first :: rest
  | .mark symbol _ => [symbol]

def first : VersionPiece → Char
  | .number first _ _ => first
  | .mark symbol _ => symbol

/-- A longer run of digits is larger, leading zeros included. -/
def compareRuns (left right : List Char) : Ordering :=
  (Ord.compare left.length right.length).then
    (List.compareLex Ord.compare left right)

/-- Two numbers compare as runs, any other pair by its first characters. -/
def compare : VersionPiece → VersionPiece → Ordering
  | .number left leftRest _, .number right rightRest _ =>
      compareRuns (left :: leftRest) (right :: rightRest)
  | left, right => Ord.compare left.first right.first

def attach (head : Char) (pieces : List VersionPiece) : List VersionPiece :=
  if digit : head.isDigit = true then
    match pieces with
    | .number first rest digits :: tail =>
        .number head (first :: rest) (by
          rw [List.all_cons, digit, digits]
          rfl) :: tail
    | pieces => .number head [] (by simp [digit]) :: pieces
  else
    .mark head (by simpa using digit) :: pieces

def ofCharacters (text : List Char) : List VersionPiece :=
  text.foldr attach []

private theorem flatMap_attach (head : Char) (pieces : List VersionPiece) :
    (attach head pieces).flatMap characters =
      head :: pieces.flatMap characters := by
  unfold attach
  split
  · split <;> rfl
  · rfl

theorem flatMap_ofCharacters (text : List Char) :
    (ofCharacters text).flatMap characters = text := by
  induction text with
  | nil => rfl
  | cons head rest induction =>
      exact (flatMap_attach head (ofCharacters rest)).trans
        (congrArg (head :: ·) induction)

end VersionPiece

/-! ## Order -/

namespace Version

def compare (left right : String) : Ordering :=
  List.compareLex VersionPiece.compare
    (VersionPiece.ofCharacters left.toList)
    (VersionPiece.ofCharacters right.toList)

example : compare "1.10" "1.9" = .gt := by decide

example : compare "1.2" "1.2.0" = .lt := by decide

example : compare "1.02" "1.3" = .gt := by decide

example : compare "1.2" "1.x" = .lt := by decide

end Version

/-! ## Comparators -/

inductive Comparator where
  | less
  | lessOrEqual
  | equal
  | greaterOrEqual
  | greater
  deriving DecidableEq, Repr

namespace Comparator

def all : List Comparator :=
  [.less, .lessOrEqual, .equal, .greaterOrEqual, .greater]

def text : Comparator → String
  | .less => "<"
  | .lessOrEqual => "<="
  | .equal => "="
  | .greaterOrEqual => ">="
  | .greater => ">"

/-- Only a whole token is an operator. -/
def ofToken? (token : String) : Option Comparator :=
  all.find? fun comparator => comparator.text == token

example : ofToken? ">=" = some .greaterOrEqual := by decide

example : ofToken? "==" = none := by decide

def holds (comparator : Comparator) (found wanted : String) : Bool :=
  let order := Version.compare found wanted
  match comparator with
  | .less => order.isLT
  | .lessOrEqual => order.isLE
  | .equal => order.isEq
  | .greaterOrEqual => order.isGE
  | .greater => order.isGT

end Comparator

end PkgConfig
