import PkgConfig.Proofs.WordCharges
import PkgConfig.Proofs.WordParts

namespace PkgConfig

/-! Taking the first word off a text. What is written for it is charged character
by character, before it is known how the word ends. Either a word and its rest
come out, or a quote stays open and every charge is undone, or the budget is too
small for a front part of what is written. -/

/-! ## Refused charges -/

namespace Ledger.Charged

variable {before after : Ledger} {bytes : Nat}

private theorem le_remaining (charged : before.Charged bytes after) :
    bytes ≤ before.budget.remaining := by
  have fits := charged.fits
  have used : before.used = before.budget.used := rfl
  unfold Budget.remaining
  omega

theorem remaining (charged : before.Charged bytes after) :
    after.budget.remaining = before.budget.remaining - bytes := by
  have used : after.budget.used = before.budget.used + bytes := charged.used
  rw [Budget.remaining, Budget.remaining, charged.capacity, used,
    Nat.sub_add_eq]

end Ledger.Charged

/-- Charging a text character by character succeeds, or is refused at the first
character that does not fit. What was charged in front of it stays. -/
theorem Run.chargeEach_cases (text : List Char) (before : Ledger) :
    (∃ after, chargeEach text before = .ok () after ∧
      before.Charged (Text.byteLength text) after) ∨
    ∃ front next between, front ++ [next] <+: text ∧
      before.Charged (Text.byteLength front) between ∧
      between.budget.remaining < next.utf8Size ∧
      chargeEach text before = .error .outOfMemory (between.note
        (.exhausted between.used between.budget.capacity next.utf8Size)) := by
  induction text generalizing before with
  | nil => exact .inl ⟨before, rfl, .nothing before⟩
  | cons character rest induction =>
      rcases charge_cases character.utf8Size before with
        ⟨between, paid, charged⟩ | ⟨short, refused⟩
      · have further : chargeEach (character :: rest) before =
            chargeEach rest between := by
          simp [chargeEach, bind, EStateM.bind, paid]
        rw [further, Text.byteLength_cons]
        rcases induction between with
          ⟨after, ok, later⟩ | ⟨front, next, stop, begins, later, exceeds, error⟩
        · exact .inl ⟨after, ok, charged.trans later⟩
        · refine .inr ⟨character :: front, next, stop, ?_, ?_, exceeds, error⟩
          · exact List.prefix_cons_iff.mpr (.inr ⟨_, rfl, begins⟩)
          · rw [Text.byteLength_cons]
            exact charged.trans later
      · refine .inr ⟨[], character, before, ?_, .nothing before, ?_, ?_⟩
        · exact List.prefix_cons_iff.mpr (.inr ⟨[], rfl, List.nil_prefix⟩)
        · have within := before.budget.within
          have used : before.used = before.budget.used := rfl
          unfold Budget.remaining
          omega
        · simp [chargeEach, bind, EStateM.bind, refused]

namespace Text

/-! ## The first word -/

def writtenWord (quote : Option Char) (text : List Char) : List Char :=
  ((glyphs quote text).takeWhile (!·.separates)).flatMap Glyph.written

def behindWord (quote : Option Char) (text : List Char) : List Char :=
  ((glyphs quote text).dropWhile (!·.separates)).map Glyph.character

def firstArgument (text : List Char) : List Char :=
  writtenWord none (text.dropWhile isBlank)

example : firstArgument " -I\"my dir\"x 'y".toList = "-Imy\\ dirx".toList := by
  decide

def OpenToEnd (text : List Char) : Prop :=
  behindWord none (text.dropWhile isBlank) = [] ∧
    (openAtEnd none text).isSome = true

private theorem Word.scan_eq {quote : Option Char}
    (quoting : ∀ opening ∈ quote, isQuote opening = true)
    (word text : List Char) :
    scan quote word text =
      ⟨word.reverse ++ writtenWord quote text, behindWord quote text,
        !(behindWord quote text).isEmpty || (openAtEnd quote text).isNone⟩ := by
  induction text generalizing quote word with
  | nil => simp [scan, writtenWord, behindWord, glyphs, openAtEnd]
  | cons character rest induction =>
      rw [scan_cons quoting]
      by_cases separates : Glyph.separates ⟨quote, character⟩ = true
      · simp [separates, writtenWord, behindWord, glyphs,
          map_character_glyphs]
      · rw [if_neg separates, induction (Glyph.isQuote_of_next quoting)]
        simp [separates, writtenWord, behindWord, glyphs, openAtEnd]

private theorem Word.ofText_eq (text : List Char) :
    ofText text = ⟨firstArgument text, behindWord none (text.dropWhile isBlank),
      !(behindWord none (text.dropWhile isBlank)).isEmpty ||
        (openAtEnd none text).isNone⟩ := by
  rw [ofText, scan_eq (by simp), (split_dropWhile text).2.2]
  rfl

private theorem Word.closed_eq_false_iff (text : List Char) :
    (ofText text).closed = false ↔ OpenToEnd text := by
  rw [ofText_eq, OpenToEnd]
  simp

structure IsRest (text rest : List Char) : Prop where
  suffix : rest <:+ text
  separated : rest = [] ∨
    ∃ blank later, rest = blank :: later ∧ isBlank blank = true
  shorter : text ≠ [] → rest.length < text.length

private theorem behindWord_suffix (quote : Option Char) (text : List Char) :
    behindWord quote text <:+ text := by
  have within := (List.dropWhile_suffix (!·.separates)
    (l := glyphs quote text)).map Glyph.character
  rwa [map_character_glyphs] at within

private theorem behindWord_separated (quote : Option Char) (text : List Char) :
    behindWord quote text = [] ∨
      ∃ blank later, behindWord quote text = blank :: later ∧
        isBlank blank = true := by
  have ends := List.head?_dropWhile_not (!·.separates) (glyphs quote text)
  unfold behindWord
  cases left : (glyphs quote text).dropWhile (!·.separates) with
  | nil => exact .inl rfl
  | cons glyph more =>
      rw [left] at ends
      have separates : glyph.separates = true := by simpa using ends
      exact .inr ⟨glyph.character, more.map Glyph.character, rfl,
        (Bool.and_eq_true_iff.mp separates).2⟩

private theorem Word.isRest_ofText (text : List Char) :
    IsRest text (ofText text).rest where
  suffix := by
    rw [ofText_eq]
    exact (behindWord_suffix none _).trans (List.dropWhile_suffix _)
  separated := by
    rw [ofText_eq]
    exact behindWord_separated none _
  shorter := length_rest_ofText

/-! ## Outcomes -/

/-- What one attempt to take a word off a text can come to. -/
inductive WordOutcome (text : List Char) (before : Ledger) :
    EStateM.Result Error Ledger Bool → Prop
  | word {after : Ledger}
      (escaped : (Word.ofText text).escaped = firstArgument text)
      (charged : before.Charged (byteLength (firstArgument text)) after)
      (rest : IsRest text (Word.ofText text).rest)
      (closed : ¬ OpenToEnd text) :
      WordOutcome text before (.ok true after)
  | unmatched (fits : byteLength (firstArgument text) ≤ before.budget.remaining)
      (opened : OpenToEnd text) :
      WordOutcome text before (.ok false before)
  | outOfMemory {front : List Char} {next : Char} {between : Ledger}
      (begins : front ++ [next] <+: firstArgument text)
      (charged : before.Charged (byteLength front) between)
      (exceeds : between.budget.remaining < next.utf8Size) :
      WordOutcome text before (.error .outOfMemory (between.note
        (.exhausted between.used between.budget.capacity next.utf8Size)))

private theorem wordOutcome_charge (text : List Char) (before : Ledger) :
    WordOutcome text before ((Word.ofText text).charge before) := by
  have escaped : (Word.ofText text).escaped = firstArgument text := by
    rw [Word.ofText_eq]
  rcases Run.chargeEach_cases (firstArgument text) before with
    ⟨after, _, charged⟩ | ⟨front, next, between, begins, charged, exceeds, error⟩
  · rw [Word.charge_eq_ok (escaped ▸ charged)]
    cases closed : (Word.ofText text).closed with
    | true =>
        refine .word escaped charged (Word.isRest_ofText text) fun opened => ?_
        rw [(Word.closed_eq_false_iff text).mpr opened] at closed
        cases closed
    | false =>
        exact .unmatched charged.le_remaining
          ((Word.closed_eq_false_iff text).mp closed)
  · have failed : (Word.ofText text).charge before =
        .error .outOfMemory (between.note
          (.exhausted between.used between.budget.capacity next.utf8Size)) := by
      simp [Word.charge, bind, EStateM.bind, Run.used, escaped, error]
    rw [failed]
    exact .outOfMemory begins charged exceeds

private theorem exists_front_exceeding_iff {written : List Char}
    {remaining : Nat} :
    (∃ front, front <+: written ∧ remaining < byteLength front) ↔
      remaining < byteLength written := by
  constructor
  · rintro ⟨front, ⟨later, rfl⟩, exceeds⟩
    rw [byteLength_append]
    omega
  · exact fun exceeds => ⟨written, List.prefix_rfl, exceeds⟩

/-- One attempt to take a word off a text gives a word, for which exactly its
bytes are charged, and a shorter rest from a blank on; or reports an open quote,
with nothing charged; or runs out of memory, which it does exactly if the budget
has no room for some front part of what is written for the word. -/
theorem first_word_outcome (text : List Char) (before : Ledger) :
    WordOutcome text before ((Word.ofText text).charge before) ∧
      ((∃ after, (Word.ofText text).charge before =
          .error .outOfMemory after) ↔
        ∃ front, front <+: firstArgument text ∧
          before.budget.remaining < byteLength front) := by
  have outcome := wordOutcome_charge text before
  refine ⟨outcome, ?_, ?_⟩
  · rintro ⟨after, failed⟩
    rw [failed] at outcome
    cases outcome with
    | outOfMemory begins charged exceeds =>
        refine ⟨_, begins, ?_⟩
        rw [charged.remaining] at exceeds
        simp only [byteLength_append, byteLength_cons, byteLength_nil]
        omega
  · intro front
    have short := exists_front_exceeding_iff.mp front
    generalize (Word.ofText text).charge before = result at outcome ⊢
    cases outcome with
    | word _ charged => exact absurd charged.le_remaining (Nat.not_le_of_lt short)
    | unmatched fits => exact absurd fits (Nat.not_le_of_lt short)
    | outOfMemory => exact ⟨_, rfl⟩

end Text

end PkgConfig
