import PkgConfig.Version

namespace PkgConfig

/-! The order of versions is a total order of all texts. The pieces of a version
are in the order of what each of them is compared by, one thing after another, and
versions are in the order of their pieces. -/

/-! ## Pieces -/

namespace VersionPiece

open Std

theorem compare_toNat (left right : Char) :
    Ord.compare left right = Ord.compare left.toNat right.toNat := by
  simp only [Ord.compare, compareOfLessAndEq, Char.lt_def,
    UInt32.lt_iff_toNat_lt, Char.toNat_val, Char.toNat_inj]

private theorem compare_digits_mark {left right symbol : Char}
    (leftDigit : left.isDigit = true) (rightDigit : right.isDigit = true)
    (plain : symbol.isDigit = false) :
    Ord.compare left symbol = Ord.compare right symbol := by
  rw [Char.isDigit_iff_toNat] at leftDigit rightDigit
  rw [← Bool.not_eq_true, Char.isDigit_iff_toNat] at plain
  rw [compare_toNat, compare_toNat]
  rcases Nat.lt_or_ge symbol.toNat '0'.toNat with below | above
  · rw [Nat.compare_eq_gt.mpr (by omega), Nat.compare_eq_gt.mpr (by omega)]
  · rw [Nat.compare_eq_lt.mpr (by omega), Nat.compare_eq_lt.mpr (by omega)]

theorem compare_then_of_ne {left right : Char} (different : left ≠ right)
    (order : Ordering) :
    (Ord.compare left right).then order = Ord.compare left right := by
  cases equal : Ord.compare left right with
  | eq => exact absurd (LawfulEqCmp.eq_of_compare equal) different
  | lt => rfl
  | gt => rfl

def rank : VersionPiece → Char
  | .number .. => '0'
  | .mark symbol _ => symbol

def digits : VersionPiece → List Char
  | .number first rest _ => first :: rest
  | .mark .. => []

/-- Ranks are compared first, then the lengths of numbers, and then their
digits. -/
theorem compare_eq :
    compare = compareLex (compareOn rank)
      (compareLex (compareOn fun piece => piece.digits.length)
        (compareOn digits)) := by
  funext left right
  rcases left with ⟨first, rest, leftDigits⟩ | ⟨symbol, plain⟩ <;>
    rcases right with ⟨other, more, rightDigits⟩ | ⟨sign, bare⟩
  case number.number => rfl
  case mark.mark => exact Ordering.then_eq.symm
  case number.mark =>
    -- The number has the rank of a zero, which is on the same side of the sign.
    have digit := (Bool.and_eq_true_iff.mp leftDigits).1
    have different : '0' ≠ sign := by
      rintro rfl
      cases bare
    rw [compareLex, compareOn, rank, rank, compare_then_of_ne different]
    exact compare_digits_mark digit rfl bare
  case mark.number =>
    have digit := (Bool.and_eq_true_iff.mp rightDigits).1
    have different : symbol ≠ '0' := by
      rintro rfl
      cases plain
    rw [compareLex, compareOn, rank, rank, compare_then_of_ne different,
      OrientedOrd.eq_swap, ← compare_digits_mark digit rfl plain,
      ← OrientedOrd.eq_swap]
    rfl

instance : TransCmp compare := by
  rw [compare_eq]
  infer_instance

instance : LawfulEqCmp compare where
  compare_self {piece} := by
    rw [compare_eq]
    exact ReflCmp.compare_self
  eq_of_compare {left right} equal := by
    rw [compare_eq, compareLex_eq_eq, compareLex_eq_eq] at equal
    have ranks : left.rank = right.rank :=
      LawfulEqCmp.eq_of_compare equal.1
    have digits : left.digits = right.digits :=
      LawfulEqCmp.eq_of_compare equal.2.2
    cases left <;> cases right <;> cases digits
    case number.number => rfl
    case mark.mark => cases ranks; rfl

/-! ## Cutting a text into pieces -/

theorem ofCharacters_mark {symbol : Char} (plain : symbol.isDigit = false)
    (rest : List Char) :
    ofCharacters (symbol :: rest) =
      .mark symbol plain :: ofCharacters rest := by
  show attach symbol (ofCharacters rest) = _
  rw [attach, dif_neg (by simp [plain])]

theorem exists_ofCharacters (head : Char) (rest : List Char) :
    ∃ piece pieces, ofCharacters (head :: rest) = piece :: pieces ∧
      piece.first = head := by
  show ∃ piece pieces, attach head (ofCharacters rest) = piece :: pieces ∧ _
  unfold attach
  split
  · split <;> exact ⟨_, _, rfl, rfl⟩
  · exact ⟨_, _, rfl, rfl⟩

def EndsNumber (text : List Char) : Prop :=
  ∀ character ∈ text.head?, character.isDigit = false

theorem exists_run (text : List Char) :
    ∃ run rest, text = run ++ rest ∧ run.all Char.isDigit = true ∧
      EndsNumber rest := by
  refine ⟨text.takeWhile Char.isDigit, text.dropWhile Char.isDigit,
    List.takeWhile_append_dropWhile.symm, List.all_takeWhile, ?_⟩
  intro character first
  have ends := List.head?_dropWhile_not Char.isDigit text
  rw [Option.mem_def.mp first] at ends
  exact ends

theorem ofCharacters_run {first : Char} {rest behind : List Char}
    (digits : (first :: rest).all Char.isDigit = true)
    (ends : EndsNumber behind) :
    ofCharacters (first :: rest ++ behind) =
      .number first rest digits :: ofCharacters behind := by
  have digit := (Bool.and_eq_true_iff.mp digits).1
  induction rest generalizing first with
  | nil =>
      show attach first (ofCharacters behind) = _
      cases behind with
      | nil => rw [attach, dif_pos digit]; rfl
      | cons symbol behind =>
          rw [ofCharacters_mark (ends symbol rfl), attach, dif_pos digit]
  | cons second rest induction =>
      have more := (Bool.and_eq_true_iff.mp digits).2
      have next := (Bool.and_eq_true_iff.mp more).1
      show attach first (ofCharacters (second :: rest ++ behind)) = _
      rw [induction more next, attach, dif_pos digit]

end VersionPiece

/-! ## Texts -/

namespace Version

open Std

theorem ofCharacters_inj {left right : List Char}
    (same : VersionPiece.ofCharacters left =
      VersionPiece.ofCharacters right) : left = right := by
  rw [← VersionPiece.flatMap_ofCharacters left, same,
    VersionPiece.flatMap_ofCharacters]

instance : TransCmp compare :=
  have pieces : TransCmp (List.compareLex VersionPiece.compare) :=
    inferInstance
  { eq_swap := pieces.eq_swap
    isLE_trans := pieces.isLE_trans }

instance : LawfulEqCmp compare :=
  have pieces : LawfulEqCmp (List.compareLex VersionPiece.compare) :=
    inferInstance
  { compare_self := pieces.compare_self
    eq_of_compare := fun equal =>
      String.toList_inj.mp (ofCharacters_inj (pieces.eq_of_compare equal)) }

/-- Versions are in one strict total order, in which only the same bytes are equal
to a text. -/
theorem compare_strict_total (first second third : String) :
    (compare first second = .eq ↔ first.toUTF8 = second.toUTF8) ∧
    compare first second = (compare second first).swap ∧
    ((compare first second).isLE → (compare second third).isLE →
      (compare first third).isLE) := by
  refine ⟨?_, OrientedCmp.eq_swap, TransCmp.isLE_trans⟩
  rw [String.toUTF8_eq_toByteArray, String.toUTF8_eq_toByteArray,
    String.toByteArray_inj]
  exact LawfulEqCmp.compare_eq_iff_eq

theorem compare_strict_total_unaligned :
    (compare "1.9a" "1.10").isLE ∧ (compare "1.10" "1.x").isLE ∧
      (compare "1.9a" "1.x").isLE :=
  ⟨by decide, by decide,
    (compare_strict_total "1.9a" "1.10" "1.x").2.2 (by decide) (by decide)⟩

end Version

end PkgConfig
