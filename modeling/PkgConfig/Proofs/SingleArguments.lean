import Mathlib.Algebra.GroupWithZero.Nat
import Mathlib.Algebra.Order.BigOperators.Group.List
import Mathlib.Algebra.Order.Group.Nat
import PkgConfig.Proofs.PlacedPaths

namespace PkgConfig.Text

/-! Fields that are one argument. A character of a field is read in one of its
words, or no word shows it. So a single argument that has as many characters as
expected tells how many of the field were quotation marks or separated words. -/

/-! ## What words leave out -/

namespace Glyph

def isSilent (glyph : Glyph) : Bool := glyph.isMark || glyph.separates

variable {glyph : Glyph}

private theorem next_of_not_isSilent (audible : glyph.isSilent = false) :
    glyph.next = glyph.quote := by
  rw [isSilent, Bool.or_eq_false_iff] at audible
  rw [next, audible.1]

def meant (glyph : Glyph) : List Char :=
  if glyph.isMark then []
  else [(original? glyph.character).getD (shown glyph.character)]

private theorem unescape_written (glyph : Glyph) :
    unescape glyph.written = glyph.meant := by
  unfold written meant
  split
  · rfl
  · split
    next original encoded =>
      rw [encoded]
      rfl
    next plain =>
      rw [plain, unescape, letters_escape]
      rfl

private theorem length_meant_of_not_separates
    (joined : glyph.separates = false) :
    glyph.meant.length = if glyph.isSilent then 0 else 1 := by
  rw [meant, isSilent, joined, Bool.or_false]
  split
  · rfl
  · rfl

end Glyph

def silent (quote : Option Char) (text : List Char) : Nat :=
  (glyphs quote text).countP Glyph.isSilent

private theorem silent_cons (quote : Option Char) (character : Char)
    (text : List Char) :
    silent quote (character :: text) =
      silent (Glyph.next ⟨quote, character⟩) text +
        if Glyph.isSilent ⟨quote, character⟩ then 1 else 0 := by
  rw [silent, glyphs, List.countP_cons]
  rfl

theorem silent_append (quote : Option Char) (left right : List Char) :
    silent quote (left ++ right) =
      silent quote left + silent (openAtEnd quote left) right := by
  rw [silent, glyphs_append, List.countP_append]
  rfl

theorem silent_eq_zero_iff {quote : Option Char} {text : List Char} :
    silent quote text = 0 ↔
      ∀ character ∈ text, Glyph.isSilent ⟨quote, character⟩ = false := by
  induction text with
  | nil => simp [silent, glyphs]
  | cons character rest induction =>
      rw [silent_cons, List.forall_mem_cons]
      cases silence : Glyph.isSilent ⟨quote, character⟩ with
      | true => simp
      | false =>
          rw [Glyph.next_of_not_isSilent silence]
          simpa using induction

theorem IsPlain.not_isSilent {text : List Char} (plain : IsPlain text)
    {quote : Option Char}
    (quoting : ∀ opening ∈ quote, isQuote opening = true) :
    ∀ character ∈ text, Glyph.isSilent ⟨quote, character⟩ = false := by
  intro character member
  rw [← encodeCharacter_of_unguarded (plain character member).1,
    Glyph.isSilent, Glyph.isMark_encoded quoting, Glyph.separates_encoded]
  rfl

theorem Part.of_not_isSilent {quote : Option Char} {text : List Char}
    (audible : ∀ character ∈ text,
      Glyph.isSilent ⟨quote, character⟩ = false) :
    Part quote text (text.flatMap fun character =>
      Glyph.written ⟨quote, character⟩) := by
  have each : ∀ character ∈ text,
      Glyph.isMark ⟨quote, character⟩ = false ∧
        Glyph.separates ⟨quote, character⟩ = false :=
    fun character member => Bool.or_eq_false_iff.mp (audible character member)
  exact .of_forall (fun character member => (each character member).2)
    fun character member => (each character member).1

/-! ### Quotation marks -/

section

variable {opening : Char} (quoting : isQuote opening = true)

include quoting

theorem silent_opening (text : List Char) :
    silent none (opening :: text) = silent (some opening) text + 1 := by
  have mark : Glyph.isMark ⟨none, opening⟩ = true := quoting
  rw [silent_cons, Glyph.next, Glyph.isSilent, mark]
  rfl

private theorem silent_pos {text : List Char} (member : opening ∈ text) :
    0 < silent none text := by
  apply Nat.pos_of_ne_zero
  intro nothing
  have audible := silent_eq_zero_iff.mp nothing opening member
  have mark : Glyph.isMark ⟨none, opening⟩ = true := quoting
  rw [Glyph.isSilent, mark] at audible
  cases audible

omit quoting in
theorem not_isSilent_of_ne {character : Char} (other : character ≠ opening) :
    Glyph.isSilent ⟨some opening, character⟩ = false := by
  have unmarked : Glyph.isMark ⟨some opening, character⟩ = false :=
    beq_false_of_ne other
  rw [Glyph.isSilent, unmarked]
  rfl

omit quoting in
private theorem silent_closing {text : List Char} (inside : opening ∉ text)
    (behind : List Char) :
    silent (some opening) (text ++ opening :: behind) =
      silent none behind + 1 := by
  have audible : ∀ character ∈ text,
      Glyph.isSilent ⟨some opening, character⟩ = false :=
    fun character member =>
      not_isSilent_of_ne (ne_of_mem_of_not_mem member inside)
  have mark : Glyph.isMark ⟨some opening, opening⟩ = true := beq_self_eq_true _
  rw [silent_append, silent_eq_zero_iff.mpr audible,
    (Part.of_not_isSilent audible).closed, silent_cons, Glyph.next,
    Glyph.isSilent, mark]
  simp

theorem silent_closed (text behind : List Char) :
    0 < silent (some opening) (text ++ opening :: behind) ∧
      (silent (some opening) (text ++ opening :: behind) ≤ 1 →
        opening ∉ text) := by
  by_cases inner : opening ∈ text
  · rcases List.eq_append_cons_of_mem inner with ⟨front, back, rfl, first⟩
    have outside : 0 < silent none (back ++ opening :: behind) :=
      silent_pos quoting (by simp)
    rw [List.append_assoc, List.cons_append, silent_closing first]
    exact ⟨by omega, fun alone => by omega⟩
  · rw [silent_closing inner]
    exact ⟨by omega, fun _ => inner⟩

end

theorem Escaped.flatMap {α : Type} {write : α → List Char} {items : List α}
    (escaped : ∀ item ∈ items, Escaped (write item)) :
    Escaped (items.flatMap write) := by
  induction items with
  | nil => exact .nil
  | cons item rest induction =>
      rcases List.forall_mem_cons.mp escaped with ⟨first, escaped⟩
      rw [List.flatMap_cons]
      exact first.append (induction escaped)

theorem Escaped.unescape_append {word : List Char} (escaped : Escaped word)
    (rest : List Char) :
    unescape (word ++ rest) = unescape word ++ unescape rest := by
  rw [unescape, escaped.letters_append, List.map_append]
  rfl

/-- Each character of a field is read in a word, or is silent. -/
theorem length_unescape_split (quote : Option Char) (text : List Char) :
    ((split quote text).map fun word => (unescape word).length).sum +
      silent quote text = text.length := by
  induction text generalizing quote with
  | nil => rfl
  | cons character rest induction =>
      have later := induction (Glyph.next ⟨quote, character⟩)
      rw [split_cons, silent_cons, List.length_cons]
      cases separates : Glyph.separates ⟨quote, character⟩ with
      | true =>
          have silence : Glyph.isSilent ⟨quote, character⟩ = true := by
            rw [Glyph.isSilent, separates, Bool.or_true]
          simp only [if_true, silence, List.map_cons, List.sum_cons]
          have nothing : (unescape []).length = 0 := rfl
          omega
      | false =>
          rcases List.exists_cons_of_ne_nil (split_ne_nil
            (Glyph.next ⟨quote, character⟩) rest) with ⟨word, words, same⟩
          have first := Glyph.length_meant_of_not_separates separates
          rw [← Glyph.unescape_written] at first
          have whole := congrArg List.length
            ((Glyph.escaped_written ⟨quote, character⟩).unescape_append word)
          rw [List.length_append, first] at whole
          simp only [same, List.map_cons, List.sum_cons] at later
          simp only [Bool.false_eq_true, if_false, same, List.modifyHead_cons,
            List.map_cons, List.sum_cons, whole]
          split at whole
          · split
            · omega
            · omega
          · split
            · omega
            · omega

/-! ## One argument -/

/-- The text is a single word, which reads as expected. -/
def IsOneArgument (text expected : List Char) : Prop :=
  openAtEnd none text = none ∧
    ∃ argument, splitWords text = [argument] ∧ unescape argument = expected

theorem Part.isOneArgument {text written : List Char}
    (part : Part none text written) (present : written ≠ []) :
    IsOneArgument text (unescape written) :=
  ⟨part.closed, written, part.splitWords_eq present, rfl⟩

theorem IsOneArgument.unique {text first second : List Char}
    (single : IsOneArgument text first) (other : IsOneArgument text second) :
    first = second := by
  rcases single with ⟨_, argument, words, rfl⟩
  rcases other with ⟨_, argument', words', rfl⟩
  cases words.symm.trans words'
  rfl

theorem IsOneArgument.length_le {text expected : List Char}
    (single : IsOneArgument text expected) :
    expected.length + silent none text ≤ text.length := by
  rcases single with ⟨_, argument, words, rfl⟩
  have listed : argument ∈ split none text :=
    mem_split_of_mem_splitWords (by simp [words])
  have part := List.le_sum_of_mem (List.mem_map_of_mem
    (f := fun word => (unescape word).length) listed)
  have whole := length_unescape_split none text
  omega

def ReadsAsItself (quote : Option Char) (text : List Char) : Prop :=
  ∀ character ∈ text,
    Glyph.isSilent ⟨quote, character⟩ = false ∧
      Glyph.shown character = character

theorem unescape_flatMap_written {quote : Option Char} {text : List Char}
    (audible : ∀ character ∈ text,
      Glyph.isSilent ⟨quote, character⟩ = false)
    (unencoded : ∀ character ∈ text, original? character = none) :
    unescape (text.flatMap fun character =>
      Glyph.written ⟨quote, character⟩) = text.map Glyph.shown := by
  have each : ∀ character ∈ text,
      unescape (Glyph.written ⟨quote, character⟩) =
        [Glyph.shown character] := by
    intro character member
    have unmarked := (Bool.or_eq_false_iff.mp (audible character member)).1
    rw [Glyph.unescape_written, Glyph.meant, unmarked,
      unencoded character member]
    rfl
  exact unescape_flatMap (fun character _ => Glyph.escaped_written _) each

end PkgConfig.Text
