import PkgConfig.Pattern.Cursor

namespace PkgConfig.Pattern

/-! How often a repetition may be taken: two bounds in braces. -/

structure Count where
  least : Nat
  most : Option Nat
  deriving DecidableEq, Repr

namespace Count

def bound : Nat := 4294967296

def value (digits : List Char) : Nat :=
  digits.foldl (fun number digit => number * 10 + (digit.toNat - 48)) 0

/-- Read a number between white space. The cursor goes on even if there is
none. -/
def readDecimal (cursor : Cursor) : Except Fault Nat × Cursor :=
  let start := (cursor.gather Text.isWhiteSpace).2
  let (digits, later) := start.gather Char.isDigit
  let after := (later.gather Text.isWhiteSpace).2
  let span := later.since start.point
  if digits.isEmpty then (Cursor.fault .decimalEmpty span, after)
  else if bound ≤ value digits then (Cursor.fault .decimalInvalid span, after)
  else (.ok (value digits), after)

def readBounds (cursor : Cursor) : Except Fault (Count × Cursor) := do
  let requireMore (later : Cursor) : Except Fault Unit :=
    if later.isAtEnd then
      Cursor.fault .repetitionCountUnclosed (later.since cursor.point)
    else
      .ok ()
  let start := cursor.step
  requireMore start
  let (least, later) := readDecimal start
  requireMore later
  if later.isAt ',' then
    let upper := later.step
    requireMore upper
    let least ← least
    if upper.isAt '\x7d' then
      return (⟨least, none⟩, upper)
    else
      let (most, closing) := readDecimal upper
      let most ← most
      return (⟨least, some most⟩, closing)
  else
    let least ← least
    return (⟨least, some least⟩, later)

def readGreed (cursor : Cursor) : Bool × Cursor :=
  if cursor.isAt '?' then (false, cursor.next) else (true, cursor)

def read (cursor : Cursor) : Except Fault ((Count × Bool) × Cursor) := do
  let (count, closing) ← readBounds cursor
  if closing.isAt '\x7d' then
    let (isGreedy, after) := readGreed closing.step
    match count.most with
    | some most =>
        if most < count.least then
          Cursor.fault .repetitionCountInvalid (after.since cursor.point)
        else
          return ((count, isGreedy), after)
    | none => return ((count, isGreedy), after)
  else
    Cursor.fault .repetitionCountUnclosed (closing.since cursor.point)

end Count

end PkgConfig.Pattern
