import Mathlib.Algebra.Group.Nat.Defs
import PkgConfig.Proofs.VersionOrder

namespace PkgConfig.Version

/-! Versions byte by byte. A cursor goes over the bytes that two versions have in
common, and where both have a run of digits, the runs are compared and taken off.
This walk comes to the order of the pieces, because in UTF-8 the bytes of two
characters are in the order of the characters, and only a digit has a byte that is
a digit. -/

/-! ## The walk -/

def isDigitByte (byte : UInt8) : Bool := 48 ≤ byte.toNat && byte.toNat ≤ 57

def compareByteRuns (left right : List UInt8) : Ordering :=
  (Ord.compare left.length right.length).then
    (List.compareLex Ord.compare left right)

private theorem length_dropWhile_drop_lt {bytes : List UInt8} {cursor : Nat}
    (within : cursor < bytes.length)
    (digit : isDigitByte bytes[cursor] = true) :
    ((bytes.drop cursor).dropWhile isDigitByte).length <
      bytes.length - cursor := by
  have rest := (List.dropWhile_suffix isDigitByte
    (l := bytes.drop (cursor + 1))).length_le
  rw [List.length_drop] at rest
  rw [List.drop_eq_getElem_cons within, List.dropWhile_cons_of_pos digit]
  omega

def walk (left right : List UInt8) (cursor : Nat) : Ordering :=
  if within : cursor < left.length ∧ cursor < right.length then
    if digits : isDigitByte left[cursor] = true ∧
        isDigitByte right[cursor] = true then
      (compareByteRuns ((left.drop cursor).takeWhile isDigitByte)
          ((right.drop cursor).takeWhile isDigitByte)).then
        (walk ((left.drop cursor).dropWhile isDigitByte)
          ((right.drop cursor).dropWhile isDigitByte) 0)
    else
      (Ord.compare left[cursor] right[cursor]).then
        (walk left right (cursor + 1))
  else
    Ord.compare left.length right.length
termination_by (left.length - cursor) + (right.length - cursor)
decreasing_by
  · have leftShorter := length_dropWhile_drop_lt within.1 digits.1
    have rightShorter := length_dropWhile_drop_lt within.2 digits.2
    omega
  · omega

private theorem walk_eq_drop (left right : List UInt8) (cursor : Nat)
    (leftReached : cursor ≤ left.length)
    (rightReached : cursor ≤ right.length) :
    walk left right cursor =
      walk (left.drop cursor) (right.drop cursor) 0 := by
  induction remaining : left.length - cursor using Nat.strongRecOn generalizing
    left right cursor with
  | ind remaining later =>
  rw [walk.eq_def left right cursor,
    walk.eq_def (left.drop cursor) (right.drop cursor) 0]
  by_cases within : cursor < left.length ∧ cursor < right.length
  · have still : 0 < (left.drop cursor).length ∧
        0 < (right.drop cursor).length := by
      simp only [List.length_drop]
      omega
    rw [dif_pos within, dif_pos still]
    simp only [List.getElem_drop, Nat.add_zero, List.drop_zero]
    split
    · rfl
    · rw [later _ (by omega) left right (cursor + 1) within.1 within.2 rfl,
        later ((left.drop cursor).length - 1) (by simp; omega)
          (left.drop cursor) (right.drop cursor) (0 + 1) still.1 still.2 rfl]
      simp only [List.drop_drop]
  · have still : ¬ (0 < (left.drop cursor).length ∧
        0 < (right.drop cursor).length) := by
      simp only [List.length_drop]
      omega
    rw [dif_neg within, dif_neg still, List.length_drop, List.length_drop]
    rcases Nat.lt_trichotomy left.length right.length with
      shorter | aligned | longer
    · rw [Nat.compare_eq_lt.mpr shorter, Nat.compare_eq_lt.mpr (by omega)]
    · rw [Nat.compare_eq_eq.mpr aligned, Nat.compare_eq_eq.mpr (by omega)]
    · rw [Nat.compare_eq_gt.mpr longer, Nat.compare_eq_gt.mpr (by omega)]

private theorem walk_bytes {first second : UInt8} {left right : List UInt8}
    (plain : ¬ (isDigitByte first = true ∧ isDigitByte second = true)) :
    walk (first :: left) (second :: right) 0 =
      (Ord.compare first second).then (walk left right 0) := by
  have within : 0 < (first :: left).length ∧ 0 < (second :: right).length :=
    ⟨Nat.succ_pos _, Nat.succ_pos _⟩
  rw [walk, dif_pos within]
  simp only [List.getElem_cons_zero]
  rw [dif_neg plain, walk_eq_drop _ _ _ within.1 within.2]
  rfl

private theorem walk_runs {first second : UInt8} {left right : List UInt8}
    (digits : isDigitByte first = true ∧ isDigitByte second = true) :
    walk (first :: left) (second :: right) 0 =
      (compareByteRuns ((first :: left).takeWhile isDigitByte)
          ((second :: right).takeWhile isDigitByte)).then
        (walk ((first :: left).dropWhile isDigitByte)
          ((second :: right).dropWhile isDigitByte) 0) := by
  have within : 0 < (first :: left).length ∧ 0 < (second :: right).length :=
    ⟨Nat.succ_pos _, Nat.succ_pos _⟩
  rw [walk, dif_pos within]
  simp only [List.getElem_cons_zero, List.drop_zero]
  rw [dif_pos digits]

/-! ## The bytes of a character -/

private theorem compare_byte (left right : UInt8) :
    Ord.compare left right = Ord.compare left.toNat right.toNat := by
  simp only [Ord.compare, compareOfLessAndEq, UInt8.lt_iff_toNat_lt,
    UInt8.toNat_inj]

/-- At the first place where two lists of bytes differ, the byte in the first one
is smaller. -/
inductive Less : List UInt8 → List UInt8 → Prop
  | here (less : first.toNat < second.toNat) :
      Less (first :: left) (second :: right)
  | behind (rest : Less left right) : Less (byte :: left) (byte :: right)

theorem Less.ofNat {first second : Nat} {left right : List UInt8}
    (small : second < 256)
    (less : first < second ∨ first = second ∧ Less left right) :
    Less (UInt8.ofNat first :: left) (UInt8.ofNat second :: right) := by
  rcases less with less | ⟨rfl, rest⟩
  · refine .here ?_
    rw [UInt8.toNat_ofNat_of_lt' (Nat.lt_trans less small),
      UInt8.toNat_ofNat_of_lt' small]
    exact less
  · exact .behind rest

private theorem toNat_lt_1114112 (character : Char) :
    character.toNat < 1114112 := by
  rcases character.valid with low | ⟨_, high⟩
  · exact Nat.lt_trans low (by decide)
  · exact high

/-- The lowest places of a number to the base 64, as the bytes that go on with a
character have them. -/
private def lowPlaces : Nat → Nat → List UInt8
  | 0, _ => []
  | places + 1, number =>
      UInt8.ofNat (number / 64 ^ places % 64 + 128) :: lowPlaces places number

private theorem le_of_mem_lowPlaces {places number : Nat} {byte : UInt8}
    (member : byte ∈ lowPlaces places number) : 128 ≤ byte.toNat := by
  induction places with
  | zero => cases member
  | succ places induction =>
      rcases List.mem_cons.mp member with rfl | member
      · rw [UInt8.toNat_ofNat_of_lt' (by simp only [UInt8.size]; omega)]
        exact Nat.le_add_left _ _
      · exact induction member

private theorem less_lowPlaces {places left right : Nat} (less : left < right)
    (same : left / 64 ^ places = right / 64 ^ places) :
    Less (lowPlaces places left) (lowPlaces places right) := by
  induction places with
  | zero =>
      rw [Nat.pow_zero, Nat.div_one, Nat.div_one] at same
      exact absurd same (Nat.ne_of_lt less)
  | succ places induction =>
      rw [Nat.pow_succ, ← Nat.div_div_eq_div_mul, ← Nat.div_div_eq_div_mul]
        at same
      have ordered : left / 64 ^ places ≤ right / 64 ^ places :=
        Nat.div_le_div_right (Nat.le_of_lt less)
      refine .ofNat (by omega) ?_
      rcases Nat.lt_or_eq_of_le ordered with lower | equal
      · exact .inl (by omega)
      · exact .inr ⟨by rw [equal], induction equal⟩

private theorem exists_encoding (character : Char) :
    ∃ places first, String.utf8EncodeChar character =
        UInt8.ofNat first :: lowPlaces places character.toNat ∧
      first < 256 ∧
      (places = 0 ∧ first = character.toNat ∧ character.toNat < 128 ∨
        places = 1 ∧ first = character.toNat / 64 ^ 1 + 192 ∧
          128 ≤ character.toNat ∧ character.toNat < 2048 ∨
        places = 2 ∧ first = character.toNat / 64 ^ 2 + 224 ∧
          2048 ≤ character.toNat ∧ character.toNat < 65536 ∨
        places = 3 ∧ first = character.toNat / 64 ^ 3 + 240 ∧
          65536 ≤ character.toNat ∧ character.toNat < 1114112) := by
  have valid := toNat_lt_1114112 character
  simp only [String.utf8EncodeChar, Char.toNat_val]
  split
  · exact ⟨0, _, rfl, by omega, by omega⟩
  · split
    · refine ⟨1, character.toNat / 64 + 192, ?_, by omega, by omega⟩
      rw [Nat.mod_eq_of_lt (by omega)]
      simp [lowPlaces]
    · split
      · refine ⟨2, character.toNat / 4096 + 224, ?_, by omega, by omega⟩
        rw [Nat.mod_eq_of_lt (by omega)]
        simp [lowPlaces]
      · refine ⟨3, character.toNat / 262144 + 240, ?_, by omega, by omega⟩
        rw [Nat.mod_eq_of_lt (by omega)]
        simp [lowPlaces]

private theorem less_encoding {left right : Char}
    (less : left.toNat < right.toNat) :
    Less (String.utf8EncodeChar left) (String.utf8EncodeChar right) := by
  rcases exists_encoding left with ⟨places, first, leftBytes, _, leftCases⟩
  rcases exists_encoding right with
    ⟨others, second, rightBytes, small, rightCases⟩
  rw [leftBytes, rightBytes]
  -- If the numbers of bytes differ, so do the ranges of the first byte.
  have ordered : first < second ∨ first = second ∧ places = others ∧
      left.toNat / 64 ^ places = right.toNat / 64 ^ places := by
    rcases leftCases with ⟨rfl, _⟩ | ⟨rfl, _⟩ | ⟨rfl, _⟩ | ⟨rfl, _⟩ <;>
      omega
  refine .ofNat small ?_
  rcases ordered with lower | ⟨equal, rfl, same⟩
  · exact .inl lower
  · exact .inr ⟨equal, less_lowPlaces less same⟩

private def digitByte (digit : Char) : UInt8 := UInt8.ofNat digit.toNat

private theorem toNat_digitByte {digit : Char}
    (isDigit : digit.isDigit = true) :
    (digitByte digit).toNat = digit.toNat := by
  rw [Char.isDigit_iff_toNat] at isDigit
  exact UInt8.toNat_ofNat_of_lt' (Nat.lt_of_le_of_lt isDigit.2 (by decide))

private theorem isDigitByte_digitByte {digit : Char}
    (isDigit : digit.isDigit = true) :
    isDigitByte (digitByte digit) = true := by
  rw [isDigitByte, toNat_digitByte isDigit]
  rw [Char.isDigit_iff_toNat] at isDigit
  simpa using isDigit

private theorem encoding_digit {digit : Char} (isDigit : digit.isDigit = true) :
    String.utf8EncodeChar digit = [digitByte digit] := by
  rw [Char.isDigit_iff_toNat] at isDigit
  have nine : '9'.toNat = 57 := rfl
  rcases exists_encoding digit with ⟨places, first, bytes, _, shape⟩
  rcases shape with ⟨rfl, rfl, _⟩ | _ | _ | _
  case inl => exact bytes
  all_goals omega

private theorem encoding_plain {character : Char}
    (plain : character.isDigit = false) :
    ∀ byte ∈ String.utf8EncodeChar character, isDigitByte byte = false := by
  intro byte member
  rw [← Bool.not_eq_true, Char.isDigit_iff_toNat] at plain
  have zero : '0'.toNat = 48 := rfl
  have nine : '9'.toNat = 57 := rfl
  rcases exists_encoding character with ⟨places, first, bytes, small, shape⟩
  rw [bytes, List.mem_cons] at member
  have other : ¬ (48 ≤ byte.toNat ∧ byte.toNat ≤ 57) := by
    rcases member with rfl | member
    · rw [UInt8.toNat_ofNat_of_lt' small]
      omega
    · have high := le_of_mem_lowPlaces member
      omega
  simpa [isDigitByte] using other

/-! ## The bytes of a text -/

def encode (text : List Char) : List UInt8 :=
  text.flatMap String.utf8EncodeChar

private theorem encode_cons (first : Char) (rest : List Char) :
    encode (first :: rest) = String.utf8EncodeChar first ++ encode rest :=
  List.flatMap_cons

private theorem encode_digit_cons {digit : Char}
    (isDigit : digit.isDigit = true) (rest : List Char) :
    encode (digit :: rest) = digitByte digit :: encode rest :=
  (encode_cons digit rest).trans
    (congrArg (· ++ encode rest) (encoding_digit isDigit))

private theorem encode_append (first second : List Char) :
    encode (first ++ second) = encode first ++ encode second :=
  List.flatMap_append

private theorem toUTF8_eq_encode (text : String) :
    text.toUTF8.data.toList = encode text.toList := by
  rw [String.toUTF8_eq_toByteArray, ← String.ofList_toList (s := text),
    String.toByteArray_ofList, List.utf8Encode, List.data_toByteArray,
    String.toList_ofList]
  rfl

private theorem walk_same {bytes left right : List UInt8}
    (plain : ∀ byte ∈ bytes, isDigitByte byte = false) :
    walk (bytes ++ left) (bytes ++ right) 0 = walk left right 0 := by
  induction bytes with
  | nil => rfl
  | cons byte bytes induction =>
      rcases List.forall_mem_cons.mp plain with ⟨mark, plain⟩
      rw [List.cons_append, List.cons_append, walk_bytes (by simp [mark]),
        compare_byte, Nat.compare_eq_eq.mpr rfl, Ordering.eq_then,
        induction plain]

private theorem walk_less {first second left right : List UInt8}
    (less : Less first second)
    (plain : (∀ byte ∈ first, isDigitByte byte = false) ∨
      ∀ byte ∈ second, isDigitByte byte = false) :
    walk (first ++ left) (second ++ right) 0 = .lt ∧
      walk (second ++ right) (first ++ left) 0 = .gt := by
  induction less with
  | @here first left second right less =>
      have apart : ¬ (isDigitByte first = true ∧
          isDigitByte second = true) := by
        simp only [List.forall_mem_cons] at plain
        grind
      simp only [List.cons_append]
      rw [walk_bytes apart, walk_bytes fun both => apart both.symm,
        compare_byte, compare_byte, Nat.compare_eq_lt.mpr less,
        Nat.compare_eq_gt.mpr less]
      exact ⟨rfl, rfl⟩
  | @behind left right byte _ induction =>
      simp only [List.forall_mem_cons] at plain
      have mark : ¬ (isDigitByte byte = true ∧ isDigitByte byte = true) := by
        grind
      simp only [List.cons_append]
      rw [walk_bytes mark, walk_bytes mark, compare_byte,
        Nat.compare_eq_eq.mpr rfl]
      exact induction (plain.imp And.right And.right)

private theorem encode_digits {run : List Char}
    (digits : run.all Char.isDigit = true) :
    encode run = run.map digitByte := by
  induction run with
  | nil => rfl
  | cons first rest induction =>
      rcases Bool.and_eq_true_iff.mp digits with ⟨digit, digits⟩
      rw [encode_digit_cons digit, induction digits, List.map_cons]

private theorem isDigitByte_of_mem {run : List Char} {byte : UInt8}
    (digits : run.all Char.isDigit = true) (member : byte ∈ encode run) :
    isDigitByte byte = true := by
  rw [encode_digits digits] at member
  rcases List.mem_map.mp member with ⟨digit, listed, rfl⟩
  exact isDigitByte_digitByte (List.all_eq_true.mp digits digit listed)

private theorem compareLex_map_digitByte {left right : List Char}
    (leftDigits : left.all Char.isDigit = true)
    (rightDigits : right.all Char.isDigit = true) :
    List.compareLex Ord.compare (left.map digitByte) (right.map digitByte) =
      List.compareLex Ord.compare left right := by
  induction left generalizing right with
  | nil => cases right <;> rfl
  | cons first left induction =>
      cases right with
      | nil => rfl
      | cons second right =>
          rcases Bool.and_eq_true_iff.mp leftDigits with
            ⟨leftDigit, leftDigits⟩
          rcases Bool.and_eq_true_iff.mp rightDigits with
            ⟨rightDigit, rightDigits⟩
          rw [List.map_cons, List.map_cons, List.compareLex_cons_cons,
            List.compareLex_cons_cons, induction leftDigits rightDigits,
            compare_byte, toNat_digitByte leftDigit,
            toNat_digitByte rightDigit, VersionPiece.compare_toNat]

private theorem compareByteRuns_encode {left right : List Char}
    (leftDigits : left.all Char.isDigit = true)
    (rightDigits : right.all Char.isDigit = true) :
    compareByteRuns (encode left) (encode right) =
      VersionPiece.compareRuns left right := by
  rw [encode_digits leftDigits, encode_digits rightDigits, compareByteRuns,
    VersionPiece.compareRuns, List.length_map, List.length_map,
    compareLex_map_digitByte leftDigits rightDigits]

private theorem head?_encode {rest : List Char}
    (ends : VersionPiece.EndsNumber rest) :
    ∀ byte ∈ (encode rest).head?, isDigitByte byte = false := by
  intro byte first
  cases rest with
  | nil => cases first
  | cons symbol rest =>
      rw [encode_cons] at first
      refine encoding_plain (ends symbol rfl) byte ?_
      cases bytes : String.utf8EncodeChar symbol with
      | nil => exact absurd bytes String.utf8EncodeChar_ne_nil
      | cons head more =>
          rw [bytes] at first
          cases first
          exact List.mem_cons_self

section Run

variable {run rest : List Char} (digits : run.all Char.isDigit = true)
  (ends : VersionPiece.EndsNumber rest)

include digits ends

private theorem takeWhile_encode :
    (encode (run ++ rest)).takeWhile isDigitByte = encode run := by
  rw [encode_append, List.takeWhile_append_of_pos fun byte member =>
    isDigitByte_of_mem digits member]
  have first := head?_encode ends
  cases bytes : encode rest with
  | nil => exact List.append_nil _
  | cons byte more =>
      rw [bytes] at first
      rw [List.takeWhile_cons_of_neg (by simp [first byte rfl]),
        List.append_nil]

private theorem dropWhile_encode :
    (encode (run ++ rest)).dropWhile isDigitByte = encode rest := by
  rw [encode_append, List.dropWhile_append_of_pos fun byte member =>
    isDigitByte_of_mem digits member]
  have first := head?_encode ends
  cases bytes : encode rest with
  | nil => rfl
  | cons byte more =>
      rw [bytes] at first
      rw [List.dropWhile_cons_of_neg (by simp [first byte rfl])]

end Run

private theorem walk_run {first second : Char} {left right : List Char}
    {leftRest rightRest : List Char}
    (leftDigits : (first :: left).all Char.isDigit = true)
    (rightDigits : (second :: right).all Char.isDigit = true)
    (leftEnds : VersionPiece.EndsNumber leftRest)
    (rightEnds : VersionPiece.EndsNumber rightRest) :
    walk (encode (first :: left ++ leftRest))
        (encode (second :: right ++ rightRest)) 0 =
      (VersionPiece.compareRuns (first :: left) (second :: right)).then
        (walk (encode leftRest) (encode rightRest) 0) := by
  have leftDigit := (Bool.and_eq_true_iff.mp leftDigits).1
  have rightDigit := (Bool.and_eq_true_iff.mp rightDigits).1
  have leftText := encode_digit_cons leftDigit (left ++ leftRest)
  have rightText := encode_digit_cons rightDigit (right ++ rightRest)
  rw [List.cons_append, List.cons_append, leftText, rightText,
    walk_runs ⟨isDigitByte_digitByte leftDigit,
      isDigitByte_digitByte rightDigit⟩,
    ← leftText, ← rightText, ← List.cons_append, ← List.cons_append,
    takeWhile_encode leftDigits leftEnds, takeWhile_encode rightDigits rightEnds,
    dropWhile_encode leftDigits leftEnds, dropWhile_encode rightDigits rightEnds,
    compareByteRuns_encode leftDigits rightDigits]

/-! ## The order -/

private theorem compareLex_of_ne {first second : Char} {left right : List Char}
    (different : first ≠ second)
    (plain : first.isDigit = false ∨ second.isDigit = false) :
    List.compareLex VersionPiece.compare
        (VersionPiece.ofCharacters (first :: left))
        (VersionPiece.ofCharacters (second :: right)) =
      Ord.compare first second := by
  rcases VersionPiece.exists_ofCharacters first left with
    ⟨piece, pieces, cut, starts⟩
  rcases VersionPiece.exists_ofCharacters second right with
    ⟨other, others, otherCut, otherStarts⟩
  have marked : VersionPiece.compare piece other =
      Ord.compare piece.first other.first := by
    rcases plain with plain | plain
    · rw [VersionPiece.ofCharacters_mark plain] at cut
      cases cut
      cases other <;> rfl
    · rw [VersionPiece.ofCharacters_mark plain] at otherCut
      cases otherCut
      cases piece <;> rfl
  rw [cut, otherCut, List.compareLex_cons_cons, marked, starts, otherStarts,
    VersionPiece.compare_then_of_ne different]

private theorem walk_of_ne {first second : Char} (left right : List Char)
    (different : first ≠ second)
    (plain : first.isDigit = false ∨ second.isDigit = false) :
    walk (encode (first :: left)) (encode (second :: right)) 0 =
      Ord.compare first second := by
  have bytes := plain.imp encoding_plain encoding_plain
  rw [encode_cons, encode_cons, VersionPiece.compare_toNat]
  rcases Nat.lt_trichotomy first.toNat second.toNat with
    less | same | greater
  · rw [Nat.compare_eq_lt.mpr less]
    exact (walk_less (less_encoding less) bytes).1
  · exact absurd (Char.toNat_inj.mp same) different
  · rw [Nat.compare_eq_gt.mpr greater]
    exact (walk_less (less_encoding greater) bytes.symm).2

private theorem length_encode_cons_pos (first : Char) (rest : List Char) :
    0 < (encode (first :: rest)).length := by
  rw [encode_cons, List.length_append, String.length_utf8EncodeChar]
  exact Nat.add_pos_left (Char.utf8Size_pos first) _

private theorem compareLex_nil_left (right : List Char) :
    List.compareLex VersionPiece.compare (VersionPiece.ofCharacters [])
        (VersionPiece.ofCharacters right) =
      walk (encode []) (encode right) 0 := by
  rw [walk, dif_neg fun within => Nat.not_lt_zero 0 within.1]
  cases right with
  | nil => rfl
  | cons first right =>
      rcases VersionPiece.exists_ofCharacters first right with
        ⟨piece, pieces, cut, _⟩
      rw [cut]
      exact (Nat.compare_eq_lt.mpr (length_encode_cons_pos first right)).symm

private theorem compareLex_nil_right (first : Char) (left : List Char) :
    List.compareLex VersionPiece.compare
        (VersionPiece.ofCharacters (first :: left))
        (VersionPiece.ofCharacters []) =
      walk (encode (first :: left)) (encode []) 0 := by
  rw [walk, dif_neg fun within => Nat.not_lt_zero 0 within.2]
  rcases VersionPiece.exists_ofCharacters first left with
    ⟨piece, pieces, cut, _⟩
  rw [cut]
  exact (Nat.compare_eq_gt.mpr (length_encode_cons_pos first left)).symm

/-- The induction is on the first of the texts. A step takes off a run of digits
from both texts, or one character that they have in common. -/
theorem compareLex_eq_walk (left right : List Char) :
    List.compareLex VersionPiece.compare (VersionPiece.ofCharacters left)
        (VersionPiece.ofCharacters right) =
      walk (encode left) (encode right) 0 := by
  induction measured : left.length using Nat.strongRecOn generalizing
    left right with
  | ind length shorter =>
  rcases left with _ | ⟨first, left⟩
  · exact compareLex_nil_left right
  rcases right with _ | ⟨second, right⟩
  · exact compareLex_nil_right first left
  by_cases digits : first.isDigit = true ∧ second.isDigit = true
  · rcases VersionPiece.exists_run left with
      ⟨leftRun, leftRest, rfl, leftDigits, leftEnds⟩
    rcases VersionPiece.exists_run right with
      ⟨rightRun, rightRest, rfl, rightDigits, rightEnds⟩
    have leftAll : (first :: leftRun).all Char.isDigit = true :=
      Bool.and_eq_true_iff.mpr ⟨digits.1, leftDigits⟩
    have rightAll : (second :: rightRun).all Char.isDigit = true :=
      Bool.and_eq_true_iff.mpr ⟨digits.2, rightDigits⟩
    have less : leftRest.length < length := by
      rw [← measured, List.length_cons, List.length_append]
      omega
    rw [← List.cons_append, ← List.cons_append,
      walk_run leftAll rightAll leftEnds rightEnds,
      VersionPiece.ofCharacters_run leftAll leftEnds,
      VersionPiece.ofCharacters_run rightAll rightEnds,
      List.compareLex_cons_cons,
      shorter leftRest.length less leftRest rightRest rfl]
    rfl
  have plain : first.isDigit = false ∨ second.isDigit = false := by
    rw [Decidable.not_and_iff_not_or_not, Bool.not_eq_true, Bool.not_eq_true]
      at digits
    exact digits
  by_cases same : first = second
  · subst same
    have mark := plain.elim id id
    have equal : VersionPiece.compare (.mark first mark) (.mark first mark) =
        .eq := Std.ReflCmp.compare_self
    rw [VersionPiece.ofCharacters_mark mark, VersionPiece.ofCharacters_mark mark,
      List.compareLex_cons_cons, equal, Ordering.eq_then, encode_cons,
      encode_cons, walk_same (encoding_plain mark)]
    exact shorter left.length (by simp [← measured]) left right rfl
  · rw [compareLex_of_ne same plain, walk_of_ne left right same plain]

/-- Versions are in the order that the walk over their bytes finds. -/
theorem compare_eq_walk (left right : String) :
    compare left right =
      walk left.toUTF8.data.toList right.toUTF8.data.toList 0 := by
  rw [toUTF8_eq_encode, toUTF8_eq_encode]
  exact compareLex_eq_walk left.toList right.toList

end PkgConfig.Version
