import PkgConfig.Pattern.Fault
import PkgConfig.Text.WhiteSpace

namespace PkgConfig.Pattern

/-! Reading a pattern from left to right. -/

structure Cursor where
  point : Point
  rest : List Char
  ignoresSpace : Bool
  deriving DecidableEq, Repr

namespace Cursor

def start (text : String) : Cursor := ⟨.start, text.toList, false⟩

def fault (cause : Cause) (span : Span) : Except Fault α :=
  .error ⟨cause, span, none⟩

def here (cursor : Cursor) : Span := ⟨cursor.point, cursor.point⟩

def current (cursor : Cursor) : Span :=
  match cursor.rest with
  | [] => cursor.here
  | character :: _ => ⟨cursor.point, cursor.point.after character⟩

def since (cursor : Cursor) (first : Point) : Span := ⟨first, cursor.point⟩

def isAt (cursor : Cursor) (character : Char) : Bool :=
  cursor.rest.head? == some character

def isAtEnd (cursor : Cursor) : Bool := cursor.rest.isEmpty

/-! ## Moving on -/

def next (cursor : Cursor) : Cursor :=
  match cursor.rest with
  | [] => cursor
  | character :: rest =>
      { cursor with point := cursor.point.after character, rest := rest }

def advance (cursor : Cursor) : Nat → Cursor
  | 0 => cursor
  | count + 1 => cursor.next.advance count

def past? (cursor : Cursor) (text : String) : Option Cursor :=
  if text.toList.isPrefixOf cursor.rest then some (cursor.advance text.length)
  else none

def skip (inComment : Bool) (point : Point) : List Char → Point × List Char
  | [] => (point, [])
  | character :: rest =>
      if inComment then skip (character != '\n') (point.after character) rest
      else if Text.isWhiteSpace character then
        skip false (point.after character) rest
      else if character == '#' then skip true (point.after character) rest
      else (point, character :: rest)

def skipSpace (cursor : Cursor) : Cursor :=
  if cursor.ignoresSpace then
    let (point, rest) := skip false cursor.point cursor.rest
    { cursor with point := point, rest := rest }
  else
    cursor

def isPastSpace (cursor : Cursor) : Bool :=
  cursor.skipSpace.point.offset == cursor.point.offset

def step (cursor : Cursor) : Cursor := cursor.next.skipSpace

/-- The character behind the current one. When space is passed over, a number
sign is passed over with it, but not the comment that it starts. -/
def peek? (cursor : Cursor) : Option Char :=
  match cursor.rest with
  | [] => none
  | _ :: rest =>
      if cursor.ignoresSpace then
        match rest.dropWhile Text.isWhiteSpace with
        | [] => rest.head?
        | '#' :: comment =>
            match comment.dropWhile Text.isWhiteSpace with
            | [] => rest.head?
            | character :: _ => some character
        | character :: _ => some character
      else
        rest.head?

/-! ## Progress -/

private theorem length_next (cursor : Cursor) :
    cursor.next.rest.length = cursor.rest.length - 1 := by
  unfold next
  split
  next empty => simp [empty]
  next equal => simp [equal]

private theorem length_advance (cursor : Cursor) (count : Nat) :
    (cursor.advance count).rest.length = cursor.rest.length - count := by
  induction count generalizing cursor with
  | zero => rfl
  | succ count induction =>
      rw [advance, induction, length_next]
      omega

private theorem length_skip_le (inComment : Bool) (point : Point)
    (text : List Char) :
    (skip inComment point text).2.length ≤ text.length := by
  induction text generalizing inComment point with
  | nil => simp [skip]
  | cons character rest induction =>
      unfold skip
      split
      · exact Nat.le_succ_of_le (induction ..)
      · split
        · exact Nat.le_succ_of_le (induction ..)
        · split
          · exact Nat.le_succ_of_le (induction ..)
          · exact Nat.le_refl _

private theorem length_step_lt (cursor : Cursor) (present : cursor.rest ≠ []) :
    cursor.step.rest.length < cursor.rest.length := by
  have shorter : cursor.next.rest.length < cursor.rest.length := by
    rw [length_next]
    exact Nat.sub_lt (List.length_pos_iff.mpr present) Nat.one_pos
  unfold step skipSpace
  split
  · exact Nat.lt_of_le_of_lt (length_skip_le ..) shorter
  · exact shorter

def gather (accepts : Char → Bool) (cursor : Cursor) : List Char × Cursor :=
  match _present : cursor.rest with
  | [] => ([], cursor)
  | character :: _ =>
      if accepts character then
        let (characters, next) := gather accepts cursor.step
        (character :: characters, next)
      else
        ([], cursor)
termination_by cursor.rest.length
decreasing_by exact length_step_lt cursor (by simp [_present])

/-! ## Loops -/

inductive Turn (σ β : Type) where
  | again (state : σ) (cursor : Cursor)
  | done (value : β) (cursor : Cursor)

def catchUp (cursor later : Cursor) : Cursor :=
  let distance := later.point.offset - cursor.point.offset
  { cursor.advance (max 1 distance) with ignoresSpace := later.ignoresSpace }

private theorem length_catchUp_lt (cursor later : Cursor)
    (present : cursor.rest ≠ []) :
    (cursor.catchUp later).rest.length < cursor.rest.length := by
  have some := List.length_pos_iff.mpr present
  simp only [catchUp, length_advance]
  omega

/-- Take turns until one is done or the text ends. Every turn reads at least one
character. -/
def loop (turn : σ → Cursor → Except Fault (Turn σ β))
    (finish : σ → Cursor → Except Fault β) (state : σ) (cursor : Cursor) :
    Except Fault (β × Cursor) :=
  match _present : cursor.rest with
  | [] => do
      let value ← finish state cursor
      return (value, cursor)
  | _ :: _ => do
      match ← turn state cursor with
      | .done value later => return (value, later)
      | .again state later => loop turn finish state (cursor.catchUp later)
termination_by cursor.rest.length
decreasing_by exact length_catchUp_lt cursor later (by simp [_present])

end Cursor

end PkgConfig.Pattern
