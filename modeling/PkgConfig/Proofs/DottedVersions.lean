import Mathlib.Algebra.Group.Nat.Defs
import Mathlib.Data.List.Lex
import PkgConfig.Proofs.VersionOrder
import PkgConfig.Text.Character

namespace PkgConfig

/-! Versions that are written as numbers with dots between them are in the order of
these numbers. A run of digits has the order of its value, because the number of
its digits decides first, and then the digits from the highest place on. -/

/-! ## Numerals -/

namespace VersionPiece

open Std

private theorem ofDigitChars_cons_zero (head : Char) (rest : List Char) :
    Nat.ofDigitChars 10 (head :: rest) 0 =
      10 ^ rest.length * (head.toNat - '0'.toNat) +
        Nat.ofDigitChars 10 rest 0 := by
  rw [Nat.ofDigitChars_cons, Nat.ofDigitChars_eq_ofDigitChars_zero,
    Nat.mul_zero, Nat.zero_add]

private theorem ofDigitChars_lt {text : List Char}
    (digits : text.all Char.isDigit = true) :
    Nat.ofDigitChars 10 text 0 < 10 ^ text.length := by
  induction text with
  | nil => decide
  | cons head rest induction =>
      rcases Bool.and_eq_true_iff.mp digits with ⟨digit, digits⟩
      have rest_lt := induction digits
      have places : 10 ^ rest.length * (head.toNat - '0'.toNat + 1) ≤
          10 ^ rest.length * 10 :=
        Nat.mul_le_mul_left _ (Text.digit_lt_ten digit)
      rw [ofDigitChars_cons_zero, List.length_cons, Nat.pow_succ]
      rw [Nat.mul_succ] at places
      omega

private theorem compare_places {base low below : Nat} (high other : Nat)
    (lowLess : low < base) (belowLess : below < base) :
    Ord.compare (base * high + low) (base * other + below) =
      (Ord.compare high other).then (Ord.compare low below) := by
  have apart : ∀ {small large : Nat}, small < large →
      base * small + base ≤ base * large := by
    intro small large less
    rw [← Nat.mul_succ]
    exact Nat.mul_le_mul_left base less
  rcases Nat.lt_trichotomy high other with less | rfl | greater
  · have further := apart less
    rw [Nat.compare_eq_lt.mpr less, Nat.compare_eq_lt.mpr (by omega)]
    rfl
  · rw [Nat.compare_eq_eq.mpr rfl, Ordering.eq_then]
    simp only [Nat.compare_eq_ite_lt, Nat.add_lt_add_iff_left]
  · have further := apart greater
    rw [Nat.compare_eq_gt.mpr greater, Nat.compare_eq_gt.mpr (by omega)]
    rfl

private theorem compare_digits {left right : Char}
    (leftDigit : left.isDigit = true) (rightDigit : right.isDigit = true) :
    Ord.compare left right =
      Ord.compare (left.toNat - '0'.toNat) (right.toNat - '0'.toNat) := by
  rw [Char.isDigit_iff_toNat] at leftDigit rightDigit
  rw [compare_toNat, Nat.compare_eq_ite_lt, Nat.compare_eq_ite_lt]
  have less : left.toNat - '0'.toNat < right.toNat - '0'.toNat ↔
      left.toNat < right.toNat := by omega
  have greater : right.toNat - '0'.toNat < left.toNat - '0'.toNat ↔
      right.toNat < left.toNat := by omega
  simp only [less, greater]

/-- Digits of the same number of places are in the order of their values. -/
theorem compareLex_digits {left right : List Char}
    (leftDigits : left.all Char.isDigit = true)
    (rightDigits : right.all Char.isDigit = true)
    (aligned : left.length = right.length) :
    List.compareLex Ord.compare left right =
      Ord.compare (Nat.ofDigitChars 10 left 0)
        (Nat.ofDigitChars 10 right 0) := by
  induction left generalizing right with
  | nil =>
      cases List.length_eq_zero_iff.mp aligned.symm
      rfl
  | cons first left induction =>
      cases right with
      | nil => cases aligned
      | cons second right =>
          rcases Bool.and_eq_true_iff.mp leftDigits with
            ⟨leftDigit, leftDigits⟩
          rcases Bool.and_eq_true_iff.mp rightDigits with
            ⟨rightDigit, rightDigits⟩
          have aligned := Nat.succ.inj aligned
          have below : Nat.ofDigitChars 10 right 0 < 10 ^ left.length :=
            aligned ▸ ofDigitChars_lt rightDigits
          rw [List.compareLex_cons_cons, ofDigitChars_cons_zero,
            ofDigitChars_cons_zero, ← aligned,
            compare_places _ _ (ofDigitChars_lt leftDigits) below,
            induction leftDigits rightDigits aligned,
            compare_digits leftDigit rightDigit]

private theorem all_isDigit_toDigits (number : Nat) :
    (Nat.toDigits 10 number).all Char.isDigit = true :=
  List.all_eq_true.mpr fun _ member =>
    Nat.isDigit_of_mem_toDigits (by decide) (by decide) member

private theorem lt_of_length_toDigits_lt {left right : Nat}
    (shorter : (Nat.toDigits 10 left).length <
      (Nat.toDigits 10 right).length) : left < right := by
  have positive : 0 < (Nat.toDigits 10 left).length :=
    Nat.length_toDigits_pos
  have within := (Nat.length_toDigits_le_iff (by decide) positive).mp
    (Nat.le_refl _)
  have beyond := mt (Nat.length_toDigits_le_iff (by decide) positive).mpr
    (Nat.not_le_of_lt shorter)
  exact Nat.lt_of_lt_of_le within (Nat.le_of_not_lt beyond)

private theorem compareRuns_toDigits (left right : Nat) :
    compareRuns (Nat.toDigits 10 left) (Nat.toDigits 10 right) =
      Ord.compare left right := by
  rw [compareRuns]
  rcases Nat.lt_trichotomy (Nat.toDigits 10 left).length
    (Nat.toDigits 10 right).length with shorter | aligned | longer
  · rw [Nat.compare_eq_lt.mpr shorter,
      Nat.compare_eq_lt.mpr (lt_of_length_toDigits_lt shorter)]
    rfl
  · rw [Nat.compare_eq_eq.mpr aligned, Ordering.eq_then,
      compareLex_digits (all_isDigit_toDigits left)
        (all_isDigit_toDigits right) aligned,
      Nat.ofDigitChars_ten_toDigits, Nat.ofDigitChars_ten_toDigits]
  · rw [Nat.compare_eq_gt.mpr longer,
      Nat.compare_eq_gt.mpr (lt_of_length_toDigits_lt longer)]
    rfl

private theorem compareLex_numerals (left right : Nat)
    {leftRest rightRest : List Char}
    (leftEnds : EndsNumber leftRest) (rightEnds : EndsNumber rightRest) :
    List.compareLex compare
        (ofCharacters (Nat.toDigits 10 left ++ leftRest))
        (ofCharacters (Nat.toDigits 10 right ++ rightRest)) =
      (Ord.compare left right).then
        (List.compareLex compare (ofCharacters leftRest)
          (ofCharacters rightRest)) := by
  have leftDigits := all_isDigit_toDigits left
  have rightDigits := all_isDigit_toDigits right
  rw [← compareRuns_toDigits]
  cases leftText : Nat.toDigits 10 left with
  | nil => exact absurd leftText Nat.toDigits_ne_nil
  | cons first rest =>
      cases rightText : Nat.toDigits 10 right with
      | nil => exact absurd rightText Nat.toDigits_ne_nil
      | cons second more =>
          rw [leftText] at leftDigits
          rw [rightText] at rightDigits
          rw [ofCharacters_run leftDigits leftEnds,
            ofCharacters_run rightDigits rightEnds, List.compareLex_cons_cons]
          rfl

end VersionPiece

/-! ## Numbers with dots -/

namespace Version

def dotted (numbers : List Nat) : String :=
  ".".intercalate (numbers.map toString)

example : dotted [1, 10, 0] = "1.10.0" := by decide

private def dottedRest (numbers : List Nat) : List Char :=
  numbers.flatMap fun number => '.' :: Nat.toDigits 10 number

private theorem toList_dotted_cons (number : Nat) (rest : List Nat) :
    (dotted (number :: rest)).toList =
      Nat.toDigits 10 number ++ dottedRest rest := by
  induction rest generalizing number with
  | nil => simp [dotted, dottedRest]
  | cons next rest induction =>
      have later := induction next
      rw [dotted, List.map_cons] at later
      rw [dotted, List.map_cons, List.map_cons, String.intercalate_cons_cons,
        String.toList_append, later]
      simp [dottedRest]

private theorem endsNumber_dottedRest (numbers : List Nat) :
    VersionPiece.EndsNumber (dottedRest numbers) := by
  intro character first
  cases numbers with
  | nil => cases first
  | cons number rest =>
      cases first
      rfl

private theorem ofCharacters_dottedRest_cons (number : Nat) (rest : List Nat) :
    VersionPiece.ofCharacters (dottedRest (number :: rest)) =
      .mark '.' rfl :: VersionPiece.ofCharacters
        (Nat.toDigits 10 number ++ dottedRest rest) :=
  VersionPiece.ofCharacters_mark rfl _

private theorem compareLex_dottedRest (left right : List Nat) :
    List.compareLex VersionPiece.compare
        (VersionPiece.ofCharacters (dottedRest left))
        (VersionPiece.ofCharacters (dottedRest right)) =
      Ord.compare left right := by
  induction left generalizing right with
  | nil =>
      cases right with
      | nil => rfl
      | cons number rest => rw [ofCharacters_dottedRest_cons]; rfl
  | cons first left induction =>
      cases right with
      | nil => rw [ofCharacters_dottedRest_cons]; rfl
      | cons second right =>
          have dots : VersionPiece.compare (.mark '.' rfl) (.mark '.' rfl) =
            .eq := rfl
          rw [ofCharacters_dottedRest_cons, ofCharacters_dottedRest_cons,
            List.compareLex_cons_cons, dots, Ordering.eq_then,
            VersionPiece.compareLex_numerals _ _ (endsNumber_dottedRest left)
              (endsNumber_dottedRest right),
            induction, List.compare_cons_cons]

private theorem compare_empty {version : String} (written : version ≠ "") :
    compare "" version = .lt := by
  rw [compare]
  cases pieces : VersionPiece.ofCharacters version.toList with
  | nil =>
      refine absurd ?_ written
      rw [← String.toList_inj]
      exact ofCharacters_inj pieces
  | cons piece rest => rfl

private theorem dotted_cons_ne (number : Nat) (rest : List Nat) :
    dotted (number :: rest) ≠ "" := by
  rw [Ne, ← String.toList_inj, toList_dotted_cons]
  exact List.append_ne_nil_of_left_ne_nil Nat.toDigits_ne_nil _

private theorem compare_dotted (left right : List Nat) :
    compare (dotted left) (dotted right) = Ord.compare left right := by
  cases left with
  | nil =>
      cases right with
      | nil => rfl
      | cons number rest => exact compare_empty (dotted_cons_ne number rest)
  | cons first left =>
      cases right with
      | nil =>
          have less := compare_empty (dotted_cons_ne first left)
          exact Std.OrientedCmp.gt_of_lt less
      | cons second right =>
          rw [compare, toList_dotted_cons, toList_dotted_cons,
            VersionPiece.compareLex_numerals _ _ (endsNumber_dottedRest left)
              (endsNumber_dottedRest right),
            compareLex_dottedRest, List.compare_cons_cons]

private theorem compare_eq_lt_iff {left right : List Nat} :
    Ord.compare left right = .lt ↔ left < right := by
  induction left generalizing right with
  | nil => cases right <;> simp
  | cons first left induction =>
      cases right with
      | nil => simp
      | cons second right =>
          rw [List.compare_cons_cons, Ordering.then_eq_lt, induction,
            Nat.compare_eq_lt, Nat.compare_eq_eq, List.cons_lt_cons_iff]

end Version

namespace Comparator

def Relates [LT α] [LE α] (comparator : Comparator) (found wanted : α) : Prop :=
  match comparator with
  | .less => found < wanted
  | .lessOrEqual => found ≤ wanted
  | .equal => found = wanted
  | .greaterOrEqual => wanted ≤ found
  | .greater => wanted < found

end Comparator

/-- Versions that are written as numbers with dots between them are in the order
of the numbers, in which a list is smaller than those that go on after it. So an
operator says of them what it says of the numbers. -/
theorem dotted_versions_ordered (found wanted : List Nat) :
    Version.compare (Version.dotted found) (Version.dotted wanted) =
      Ord.compare found wanted ∧
    ∀ comparator : Comparator,
      comparator.holds (Version.dotted found) (Version.dotted wanted) = true ↔
        comparator.Relates found wanted := by
  have ordered := Version.compare_dotted found wanted
  have less := @Version.compare_eq_lt_iff found wanted
  have greater := Std.OrientedCmp.gt_iff_lt.trans
    (@Version.compare_eq_lt_iff wanted found)
  refine ⟨ordered, fun comparator => ?_⟩
  cases comparator <;>
    simp only [Comparator.holds, Comparator.Relates, ordered]
  case less => rw [Ordering.isLT_iff_eq_lt, less]
  case lessOrEqual =>
    rw [Ordering.isLE_iff_ne_gt, greater]
    exact not_lt
  case equal =>
    rw [Ordering.isEq_iff_eq_eq, Std.LawfulEqOrd.compare_eq_iff_eq]
  case greaterOrEqual =>
    rw [Ordering.isGE_iff_ne_lt, less]
    exact not_lt
  case greater => rw [Ordering.isGT_iff_eq_gt, greater]

end PkgConfig
