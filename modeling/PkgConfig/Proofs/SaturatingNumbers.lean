import Mathlib.Data.List.Infix
import PkgConfig.CommandLine.Program

namespace PkgConfig

/-! Reading a number up to a limit, in 64-bit words. The digits are read until
they have reached the limit, but the step that would reach it may itself leave the
words, and then nothing is read. It does so for no text if ten times the limit is
not above the number of words. -/

/-! ## Digits -/

def digitsIn (text : List Char) : List Char := text.filter Char.isDigit

def numberIn (text : String) : Nat :=
  Nat.ofDigitChars 10 (digitsIn text.toList) 0

example : numberIn "x12y3" = 123 := by decide

private theorem le_ofDigitChars (digits : List Char) (start : Nat) :
    start ≤ Nat.ofDigitChars 10 digits start := by
  induction digits generalizing start with
  | nil => exact Nat.le_refl start
  | cons digit rest induction =>
      rw [Nat.ofDigitChars_cons]
      have later := induction (10 * start + (digit.toNat - '0'.toNat))
      omega

private theorem ofDigitChars_le_of_isPrefix {front digits : List Char}
    (isFront : front <+: digits) (start : Nat) :
    Nat.ofDigitChars 10 front start ≤ Nat.ofDigitChars 10 digits start := by
  rcases isFront with ⟨rest, rfl⟩
  rw [Nat.ofDigitChars_append]
  exact le_ofDigitChars rest _

/-! ## Numbers that fit -/

/-- Some of the leading digits write a number that fits a word, and either it has
reached the limit or they are all digits. -/
def FitsUpTo (limit start : Nat) (digits : List Char) : Prop :=
  ∃ front, front <+: digits ∧
    Nat.ofDigitChars 10 front start < UInt64.size ∧
    (limit ≤ Nat.ofDigitChars 10 front start ∨ front = digits)

private theorem fitsUpTo_cons {limit start : Nat} {digit : Char}
    {rest : List Char} (below : start < limit) :
    FitsUpTo limit start (digit :: rest) ↔
      10 * start + (digit.toNat - '0'.toNat) < UInt64.size ∧
        (limit ≤ 10 * start + (digit.toNat - '0'.toNat) ∨
          FitsUpTo limit (10 * start + (digit.toNat - '0'.toNat)) rest) := by
  constructor
  · rintro ⟨front, isFront, fits, ends⟩
    rcases List.prefix_cons_iff.mp isFront with rfl | ⟨more, rfl, within⟩
    · -- No digit is not enough: the start is below the limit.
      rcases ends with reached | all
      · exact absurd reached (Nat.not_le_of_lt below)
      · cases all
    · rw [Nat.ofDigitChars_cons] at fits ends
      have first := le_ofDigitChars more
        (10 * start + (digit.toNat - '0'.toNat))
      refine ⟨Nat.lt_of_le_of_lt first fits, .inr ⟨more, within, fits, ?_⟩⟩
      exact ends.imp_right fun all => (List.cons.inj all).2
  · rintro ⟨fits, reached | ⟨front, isFront, frontFits, ends⟩⟩
    · exact ⟨[digit], List.prefix_cons_iff.mpr (.inr ⟨[], rfl, List.nil_prefix⟩),
        fits, .inl reached⟩
    · refine ⟨digit :: front,
        List.prefix_cons_iff.mpr (.inr ⟨front, rfl, isFront⟩), ?_, ?_⟩
      · rwa [Nat.ofDigitChars_cons]
      · rw [Nat.ofDigitChars_cons]
        exact ends.imp_right fun all => congrArg (digit :: ·) all

private theorem readDepth?_of_fitsUpTo {limit value : UInt64} {text : List Char}
    (below : value.toNat < limit.toNat)
    (fits : FitsUpTo limit.toNat value.toNat (digitsIn text)) :
    ∃ depth, readDepth? limit value text = some depth ∧
      depth.toNat = min limit.toNat
        (Nat.ofDigitChars 10 (digitsIn text) value.toNat) := by
  induction text generalizing value with
  | nil => exact ⟨value, rfl, (Nat.min_eq_right (Nat.le_of_lt below)).symm⟩
  | cons character rest induction =>
      by_cases digit : character.isDigit = true
      · rw [digitsIn, List.filter_cons_of_pos digit] at fits ⊢
        rcases (fitsUpTo_cons below).mp fits with ⟨firstFits, further⟩
        obtain ⟨next, number⟩ : ∃ next : UInt64, next.toNat =
            10 * value.toNat + (character.toNat - '0'.toNat) :=
          ⟨.ofNatLT _ firstFits, UInt64.toNat_ofNatLT⟩
        have appended := (appendDigit?_eq_some_iff digit).mpr number
        rw [readDepth?, if_pos digit, appended, Option.bind_eq_bind,
          Option.bind_some, Nat.ofDigitChars_cons]
        rw [← number] at further ⊢
        split
        next reached =>
          rw [UInt64.le_iff_toNat_le] at reached
          have more := le_ofDigitChars (digitsIn rest) next.toNat
          exact ⟨limit, rfl,
            (Nat.min_eq_left (Nat.le_trans reached more)).symm⟩
        next short =>
          rw [UInt64.le_iff_toNat_le] at short
          exact induction (Nat.lt_of_not_le short) (further.resolve_left short)
      · rw [digitsIn, List.filter_cons_of_neg digit] at fits ⊢
        rw [readDepth?, if_neg digit]
        exact induction below fits

private theorem fitsUpTo_of_readDepth? {limit value depth : UInt64}
    {text : List Char} (below : value.toNat < limit.toNat)
    (read : readDepth? limit value text = some depth) :
    FitsUpTo limit.toNat value.toNat (digitsIn text) := by
  induction text generalizing value with
  | nil => exact ⟨[], List.nil_prefix, value.toNat_lt, .inr rfl⟩
  | cons character rest induction =>
      by_cases digit : character.isDigit = true
      · rw [readDepth?, if_pos digit, Option.bind_eq_bind] at read
        rcases Option.bind_eq_some_iff.mp read with ⟨next, appended, read⟩
        have number := (appendDigit?_eq_some_iff digit).mp appended
        rw [digitsIn, List.filter_cons_of_pos digit, fitsUpTo_cons below,
          ← number]
        refine ⟨next.toNat_lt, ?_⟩
        split at read
        next reached => exact .inl (UInt64.le_iff_toNat_le.mp reached)
        next short =>
          rw [UInt64.le_iff_toNat_le] at short
          exact .inr (induction (Nat.lt_of_not_le short) read)
      · rw [readDepth?, if_neg digit] at read
        rw [digitsIn, List.filter_cons_of_neg digit]
        exact induction below read

/-! ## A limit of zero -/

private theorem fitsUpTo_zero (digits : List Char) : FitsUpTo 0 0 digits :=
  ⟨[], List.nil_prefix, by decide, .inl (Nat.le_refl 0)⟩

private theorem readDepth?_zero (text : List Char) :
    readDepth? 0 0 text = some 0 := by
  induction text with
  | nil => rfl
  | cons character rest induction =>
      rw [readDepth?]
      split
      next digit =>
        have small := Text.digit_lt_ten digit
        have first : character.toNat - '0'.toNat < UInt64.size := by
          rw [UInt64.size]
          omega
        have appended : appendDigit? 0 character = some (.ofNatLT _ first) := by
          rw [appendDigit?_eq_some_iff digit, UInt64.toNat_ofNatLT]
          exact (Nat.zero_add _).symm
        rw [appended, Option.bind_eq_bind, Option.bind_some]
        exact if_pos UInt64.zero_le
      · exact induction

/-! ## Room for every text -/

def digitsBeyond (limit : Nat) : List Char :=
  Nat.toDigits 10 (limit - 1) ++ ['9']

private theorem digitsIn_digitsBeyond (limit : Nat) :
    digitsIn (digitsBeyond limit) = digitsBeyond limit := by
  apply List.filter_eq_self.mpr
  intro digit member
  rcases List.mem_append.mp member with inside | last
  · exact Nat.isDigit_of_mem_toDigits (by decide) (by decide) inside
  · rw [List.mem_singleton.mp last]
    rfl

/-- Without that room, the limit is reached by a step that leaves the words. -/
theorem not_fitsUpTo_digitsBeyond {limit : Nat}
    (narrow : UInt64.size < limit * 10) :
    ¬ FitsUpTo limit 0 (digitsBeyond limit) := by
  have before : Nat.ofDigitChars 10 (Nat.toDigits 10 (limit - 1)) 0 =
      limit - 1 := Nat.ofDigitChars_toDigits (by decide) (by decide)
  rintro ⟨front, isFront, fits, ends⟩
  have cut : front = digitsBeyond limit ∨
      front <+: Nat.toDigits 10 (limit - 1) :=
    List.prefix_concat_iff.mp isFront
  rcases cut with rfl | within
  · rw [digitsBeyond, Nat.ofDigitChars_append, before] at fits
    simp [Nat.ofDigitChars_cons] at fits
    omega
  · have less := ofDigitChars_le_of_isPrefix within 0
    rw [before] at less
    rcases ends with reached | rfl
    · omega
    · have longer := within.length_le
      rw [digitsBeyond, List.length_append, List.length_singleton] at longer
      omega

/-! ## Numbers up to a limit -/

def Saturates (limit : UInt64) (text : String) : Prop :=
  ∃ depth, parseDepth? text limit = some depth ∧
    depth.toNat = min limit.toNat (numberIn text)

private theorem isSome_iff_fitsUpTo (limit : UInt64) (text : String) :
    (parseDepth? text limit).isSome ↔
      FitsUpTo limit.toNat 0 (digitsIn text.toList) := by
  rcases Nat.eq_zero_or_pos limit.toNat with zero | positive
  · have same : limit = 0 := UInt64.toNat_inj.mp zero
    subst same
    rw [parseDepth?, readDepth?_zero]
    exact iff_of_true rfl (fitsUpTo_zero _)
  · have below : (0 : UInt64).toNat < limit.toNat := positive
    constructor
    · intro isSome
      rcases Option.isSome_iff_exists.mp isSome with ⟨depth, read⟩
      exact fitsUpTo_of_readDepth? below read
    · intro fits
      rcases readDepth?_of_fitsUpTo below fits with ⟨depth, read, _⟩
      exact Option.isSome_iff_exists.mpr ⟨depth, read⟩

private theorem toNat_of_parseDepth? {limit depth : UInt64} {text : String}
    (read : parseDepth? text limit = some depth) :
    depth.toNat = min limit.toNat (numberIn text) := by
  rcases Nat.eq_zero_or_pos limit.toNat with zero | positive
  · have same : limit = 0 := UInt64.toNat_inj.mp zero
    subst same
    rw [parseDepth?, readDepth?_zero] at read
    cases read
    exact (Nat.zero_min _).symm
  · have below : (0 : UInt64).toNat < limit.toNat := positive
    rcases readDepth?_of_fitsUpTo below (fitsUpTo_of_readDepth? below read) with
      ⟨same, again, number⟩
    cases again.symm.trans read
    exact number

private theorem saturates_iff_isSome (limit : UInt64) (text : String) :
    Saturates limit text ↔ (parseDepth? text limit).isSome := by
  rw [Option.isSome_iff_exists]
  constructor
  · rintro ⟨depth, read, _⟩
    exact ⟨depth, read⟩
  · rintro ⟨depth, read⟩
    exact ⟨depth, read, toNat_of_parseDepth? read⟩

theorem CommandLine.maxTraversalDepth_eq (text : String) :
    maxTraversalDepth text =
      min maxTraversalDepthLimit.toNat (numberIn text) :=
  toNat_of_parseDepth? (Option.some_get _).symm

/-- A number is read as it is written, cut off at the limit, exactly if some of
its leading digits have reached the limit within the words or all of it fits; of
any other text nothing is read. Every text is read exactly if ten times the limit
is at most the number of words. -/
theorem parseDepth?_saturates_iff (limit : UInt64) :
    (∀ text,
      (Saturates limit text ↔
        FitsUpTo limit.toNat 0 (digitsIn text.toList)) ∧
      (parseDepth? text limit = none ↔ ¬ Saturates limit text)) ∧
    ((∀ text, Saturates limit text) ↔ limit.toNat * 10 ≤ UInt64.size) := by
  refine ⟨fun text => ⟨?_, ?_⟩, ?_, ?_⟩
  · rw [saturates_iff_isSome, isSome_iff_fitsUpTo]
  · rw [saturates_iff_isSome, Option.not_isSome_iff_eq_none]
  · intro always
    by_contra narrow
    have read := (saturates_iff_isSome limit _).mp
      (always (String.ofList (digitsBeyond limit.toNat)))
    rw [isSome_iff_fitsUpTo, String.toList_ofList, digitsIn_digitsBeyond] at read
    exact not_fitsUpTo_digitsBeyond (Nat.lt_of_not_le narrow) read
  · intro room text
    exact (saturates_iff_isSome limit text).mpr (parseDepth?_isSome text room)

/-- Nineteen nines are below the limit, and ten times as much is no word. -/
theorem twenty_nines_not_saturated :
    parseDepth? "99999999999999999999" 18446744073709551615 = none ∧
      numberIn "99999999999999999999" = 99999999999999999999 ∧
      ¬ Saturates 18446744073709551615 "99999999999999999999" := by
  have unread : parseDepth? "99999999999999999999" 18446744073709551615 =
      none := by decide
  refine ⟨unread, by decide, ?_⟩
  rw [saturates_iff_isSome, unread]
  exact Bool.false_ne_true

end PkgConfig
