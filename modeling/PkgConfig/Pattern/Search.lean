import PkgConfig.Pattern.Basic

namespace PkgConfig.Pattern

/-! Looking for a pattern in a text, character by character. A repetition stands
for copies of what it repeats, one for each round, and a repetition inside it
multiplies them. A number tells which copies are meant, bit by bit: those of a
round lie next to each other, as many as there are of the repetition itself.
This number of copies is called the width. -/

/-! ## Copies -/

def copiesBelow (bound copies : Nat) : Nat :=
  if copies >>> bound = 0 then copies else copies &&& ((1 <<< bound) - 1)

def copiesFrom (bound copies : Nat) : Nat := (copies >>> bound) <<< bound

/-- The copies of a repetition that have a copy in one of the rounds. The rounds
are folded in halves, so often that a single one is left. -/
def inAnyRound (width : Nat) : Nat → Nat → Nat
  | 0, copies => copies
  | level + 1, copies =>
      let half := width <<< level
      inAnyRound width level (copiesBelow half copies ||| (copies >>> half))

def inLaterRounds (width : Nat) : Nat → Nat → Nat
  | 0, copies => copies
  | level + 1, copies =>
      let reached := inLaterRounds width level copies
      reached ||| (reached <<< (width <<< level))

example : inAnyRound 2 3 0b100100 = 0b11 ∧
    inLaterRounds 2 1 0b1001 = 0b101101 := by decide

def roundCount (least : Nat) (most : Option Nat) : Nat :=
  most.getD (max least 1)

def halvings (rounds : Nat) : Nat :=
  if rounds ≤ 1 then 0 else (rounds - 1).log2 + 1

example : [1, 2, 3, 4, 5, 8, 9].map halvings = [0, 1, 2, 2, 3, 3, 4] := by decide

/-! ## Marks -/

inductive Marks where
  | idle
  /-- Copies that have been found, and copies of a literal with what is still to
  come of it. -/
  | reading (found : Nat) (awaited : List (List Char × Nat))
  | both (left right : Marks)

namespace Marks

def isIdle : Marks → Bool
  | idle => true
  | _ => false

def found : Marks → Nat
  | reading found _ => found
  | _ => 0

def awaited : Marks → List (List Char × Nat)
  | reading _ awaited => awaited
  | _ => []

def left : Marks → Marks
  | both left _ => left
  | _ => idle

def right : Marks → Marks
  | both _ right => right
  | _ => idle

def pair (left right : Marks) : Marks :=
  if left.isIdle && right.isIdle then idle else both left right

def addLiteral (rest : List Char) (copies : Nat) (marks : Marks) : Marks :=
  if copies = 0 then marks
  else if rest.isEmpty then reading (marks.found ||| copies) marks.awaited
  else reading marks.found ((rest, copies) :: marks.awaited)

def readLiteral (read : Char) (text : List Char) (copies : Nat)
    (marks : Marks) : Marks :=
  match text with
  | [] => marks
  | next :: later =>
      if next == read then marks.addLiteral later copies else marks

def readAwaited (read : Char) : List (List Char × Nat) → Marks
  | [] => idle
  | (text, copies) :: rest =>
      readLiteral read text copies (readAwaited read rest)

end Marks

/-! ## Empty texts -/

def acceptsEmpty (sides : Sides) : Pattern → Bool
  | empty => true
  | literal _ => false
  | set _ _ => false
  | look condition => condition.holds sides
  | capture _ inner => inner.acceptsEmpty sides
  | repetition least _ _ inner => least == 0 || inner.acceptsEmpty sides
  | sequence first second =>
      first.acceptsEmpty sides && second.acceptsEmpty sides
  | choice left right => left.acceptsEmpty sides || right.acceptsEmpty sides

/-! ## Search -/

/-- The copies that are behind a pattern at a place, if some are in front of it.
When the inside of a repetition may be empty there, none of the rounds that are
left is needed. -/
def behind (sides : Sides) (width copies : Nat) (pattern : Pattern)
    (marks : Marks) : Nat :=
  if marks.isIdle then
    if copies != 0 && pattern.acceptsEmpty sides then copies else 0
  else
    match pattern with
    | empty => copies
    | literal _ => marks.found
    | set _ _ => marks.found
    | look condition => if condition.holds sides then copies else 0
    | capture _ inner => inner.behind sides width copies marks
    | repetition least most _ inner =>
        let rounds := roundCount least most
        let done := inner.behind sides (width * rounds) 0 marks
        if inner.acceptsEmpty sides then
          copies ||| inAnyRound width (halvings rounds) done
        else
          (if least = 0 then copies else 0) |||
            inAnyRound width (halvings rounds) (done >>> (width * (least - 1)))
    | sequence first second =>
        second.behind sides width (first.behind sides width copies marks.left)
          marks.right
    | choice left right =>
        left.behind sides width copies marks.left |||
          right.behind sides width copies marks.right

def advance (sides : Sides) (read : Char) (width copies : Nat)
    (pattern : Pattern) (marks : Marks) : Marks :=
  if copies = 0 && marks.isIdle then
    .idle
  else
    match pattern with
    | empty => .idle
    | literal text =>
        (Marks.readAwaited read marks.awaited).readLiteral read text copies
    | set _ members =>
        if copies != 0 && members.contains read then .reading copies []
        else .idle
    | look _ => .idle
    | capture _ inner => inner.advance sides read width copies marks
    | repetition least most _ inner =>
        let rounds := roundCount least most
        let total := width * rounds
        let done := inner.behind sides total 0 marks
        let again := if most.isNone then copiesFrom (total - width) done else 0
        let next := copies ||| (done <<< width) ||| again
        let reached :=
          if inner.acceptsEmpty sides then
            inLaterRounds width (halvings rounds) next
          else
            next
        inner.advance sides read total (copiesBelow total reached) marks
    | sequence first second =>
        .pair (first.advance sides read width copies marks.left)
          (second.advance sides read width
            (first.behind sides width copies marks.left) marks.right)
    | choice left right =>
        .pair (left.advance sides read width copies marks.left)
          (right.advance sides read width copies marks.right)

def search (pattern : Pattern) (marks : Marks) (before : Option Char) :
    List Char → Bool
  | [] => pattern.behind ⟨before, none⟩ 1 1 marks != 0
  | read :: rest =>
      let sides : Sides := ⟨before, some read⟩
      pattern.behind sides 1 1 marks != 0 ||
        search pattern (pattern.advance sides read 1 1 marks) (some read) rest

def occursIn (pattern : Pattern) (text : String) : Bool :=
  pattern.search .idle none text.toList

end PkgConfig.Pattern
