import PkgConfig.CharSet

namespace PkgConfig.CharSet

/-! How the characters of a set are spelled in UTF-8. A spelling gives a range of
bytes for each place; it stands for all sequences with bytes in these ranges. -/

abbrev Spelling : Type := List (Nat × Nat)

def laterMark : Nat := 0x80

/-- Spell a range of numbers. The first byte is its mark and a digit; the units
tell how much the digits are worth, the last one aside, which counts ones. The
beginning and the end of the range are spelled apart where they do not fill
their digit. -/
def spell (mark : Nat) : List Nat → Nat → Nat → List Spelling
  | [], first, last => [[(mark + first, mark + last)]]
  | unit :: units, first, last =>
      let low := first / unit
      let high := last / unit
      let startsInside := first % unit != 0
      let endsInside := last % unit != unit - 1
      let under (low high : Nat) (spellings : List Spelling) : List Spelling :=
        spellings.map ((mark + low, mark + high) :: ·)
      if low = high then
        under low low (spell laterMark units (first % unit) (last % unit))
      else
        let lowFull := if startsInside then low + 1 else low
        let highFull := if endsInside then high - 1 else high
        (if startsInside then
          under low low (spell laterMark units (first % unit) (unit - 1))
        else
          []) ++
        (if lowFull ≤ highFull then
          under lowFull highFull (spell laterMark units 0 (unit - 1))
        else
          []) ++
        (if endsInside then
          under high high (spell laterMark units 0 (last % unit))
        else
          [])

structure SpellingBlock where
  first : Nat
  last : Nat
  mark : Nat
  units : List Nat

def spellingBlocks : List SpellingBlock :=
  [⟨0, 0x7F, 0, []⟩,
    ⟨0x80, 0x7FF, 0xC0, [0x40]⟩,
    ⟨0x800, 0xD7FF, 0xE0, [0x1000, 0x40]⟩,
    ⟨0xE000, 0xFFFF, 0xE0, [0x1000, 0x40]⟩,
    ⟨0x10000, 0x10FFFF, 0xF0, [0x40000, 0x1000, 0x40]⟩]

def spellingsOfRange (first last : Nat) : List Spelling :=
  spellingBlocks.flatMap fun block =>
    let low := max first block.first
    let high := min last block.last
    if low ≤ high then spell block.mark block.units low high else []

def spellings (set : CharSet) : List Spelling :=
  set.ranges.flatMap fun (first, last) => spellingsOfRange first last

example : (range 'à' 'ü').spellings = [[(0xC3, 0xC3), (0xA0, 0xBC)]] := by
  decide

example : (singleton '\n').complement.spellings.length = 10 := by decide

example : (range 'ߐ' 'က').spellings =
    [[(0xDF, 0xDF), (0x90, 0xBF)],
      [(0xE0, 0xE0), (0xA0, 0xBF), (0x80, 0xBF)],
      [(0xE1, 0xE1), (0x80, 0x80), (0x80, 0x80)]] := by decide

/-! ## Spellings that begin alike -/

/-- Spellings by the range of their first byte, each range with what may follow
it. Only neighbours are put together. -/
def byFirst : List Spelling → List ((Nat × Nat) × List Spelling)
  | [] => []
  | [] :: rest => byFirst rest
  | (range :: later) :: rest =>
      match byFirst rest with
      | (next, laters) :: others =>
          if range = next then (range, later :: laters) :: others
          else (range, [later]) :: (next, laters) :: others
      | [] => [(range, [later])]

example : byFirst [[(1, 1), (2, 2)], [(1, 1), (3, 4)], [(5, 5)]] =
    [((1, 1), [[(2, 2)], [(3, 4)]]), ((5, 5), [[]])] := by decide

end PkgConfig.CharSet
