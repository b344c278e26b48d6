namespace PkgConfig

/-! Sets of characters, as ranges of code points that ascend and lie apart. -/

def maxCodePoint : Nat := 0x10FFFF

/-- The code point after one. There are no characters from 0xD800 to 0xDFFF. -/
def nextCodePoint (point : Nat) : Nat :=
  if point = 0xD7FF then 0xE000 else point + 1

def previousCodePoint (point : Nat) : Nat :=
  if point = 0xE000 then 0xD7FF else point - 1

structure CharSet where
  ranges : List (Nat × Nat)
  deriving DecidableEq, Repr

namespace CharSet

def empty : CharSet := ⟨[]⟩

/-- Add a range to ranges. Those that it meets or touches are merged with it. -/
def insertRange (first last : Nat) : List (Nat × Nat) → List (Nat × Nat)
  | [] => [(first, last)]
  | (low, high) :: rest =>
      if nextCodePoint last < low then
        (first, last) :: (low, high) :: rest
      else if nextCodePoint high < first then
        (low, high) :: insertRange first last rest
      else
        insertRange (min first low) (max last high) rest

def ofRanges (ranges : List (Nat × Nat)) : CharSet :=
  ⟨ranges.foldr (fun (first, last) => insertRange first last) []⟩

def range (first last : Char) : CharSet := ⟨[(first.toNat, last.toNat)]⟩

def singleton (character : Char) : CharSet := range character character

def gaps (start : Nat) : List (Nat × Nat) → List (Nat × Nat)
  | [] => if start ≤ maxCodePoint then [(start, maxCodePoint)] else []
  | (low, high) :: rest =>
      if start < low then
        (start, previousCodePoint low) :: gaps (nextCodePoint high) rest
      else
        gaps (nextCodePoint high) rest

def complement (set : CharSet) : CharSet := ⟨gaps 0 set.ranges⟩

def union (left right : CharSet) : CharSet :=
  ⟨left.ranges.foldr (fun (first, last) => insertRange first last) right.ranges⟩

def intersection (left right : CharSet) : CharSet :=
  (left.complement.union right.complement).complement

def difference (left right : CharSet) : CharSet :=
  left.intersection right.complement

def symmetricDifference (left right : CharSet) : CharSet :=
  (left.union right).difference (left.intersection right)

def contains (set : CharSet) (character : Char) : Bool :=
  set.ranges.any fun (first, last) =>
    first ≤ character.toNat && character.toNat ≤ last

def single? (set : CharSet) : Option Char :=
  match set.ranges with
  | [(first, last)] => if first = last then some (Char.ofNat first) else none
  | _ => none

def size (set : CharSet) : Nat :=
  set.ranges.foldl (fun size (first, last) => size + (last - first + 1)) 0

def toList (set : CharSet) : List Char :=
  set.ranges.flatMap fun (first, last) =>
    (List.range (last - first + 1)).map fun offset =>
      Char.ofNat (first + offset)

def isAscii (set : CharSet) : Bool :=
  set.ranges.all fun (_, last) => last < 0x80

def withBothCases (set : CharSet) : CharSet :=
  let letters := [('a', 'A'), ('A', 'a')].flatMap fun (own, other) =>
    (List.range 26).filterMap fun offset =>
      if set.contains (Char.ofNat (own.toNat + offset)) then
        some (other.toNat + offset, other.toNat + offset)
      else
        none
  set.union (ofRanges letters)

example : (ofRanges [(97, 99), (48, 57), (100, 100)]).ranges =
    [(48, 57), (97, 100)] := by decide

example : ((range 'a' 'z').difference (range 'c' 'x')).ranges =
    [(97, 98), (121, 122)] := by decide

example : ((ofRanges [(0, 0xD7FF)]).union
      (ofRanges [(0xE000, maxCodePoint)])).complement.ranges = [] := by decide

example : (range 'a' 'c').toList = ['a', 'b', 'c'] := by decide

example : (range 'x' 'z').withBothCases.ranges = [(88, 90), (120, 122)] := by
  decide

end CharSet

end PkgConfig
