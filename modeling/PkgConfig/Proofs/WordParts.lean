import PkgConfig.Proofs.WordSplitting

namespace PkgConfig.Text

/-! Words as a field spells them, with their quotes. What is written for one of
them depends on nothing around it. A text is part of a word if it holds no
separator and leaves the quotes as they are; so do encoded texts in any quotes,
and whatever is put into quotes. -/

/-! ## Spelling -/

private theorem openAtEnd_append (quote : Option Char)
    (left right : List Char) :
    openAtEnd quote (left ++ right) = openAtEnd (openAtEnd quote left) right :=
  List.foldl_append

theorem glyphs_append (quote : Option Char) (left right : List Char) :
    glyphs quote (left ++ right) =
      glyphs quote left ++ glyphs (openAtEnd quote left) right := by
  induction left generalizing quote with
  | nil => rfl
  | cons character left induction =>
      rw [List.cons_append, glyphs, induction]
      rfl

theorem map_character_glyphs (quote : Option Char) (text : List Char) :
    (glyphs quote text).map Glyph.character = text := by
  induction text generalizing quote with
  | nil => rfl
  | cons character rest induction =>
      rw [glyphs, List.map_cons, induction]

def spelledWords (text : List Char) : List (List Char) :=
  ((glyphs none text).splitOnP Glyph.separates).map
    (·.map Glyph.character)

example : spelledWords "-I\"my dir\" 'x'y".toList =
    ["-I\"my dir\"".toList, "'x'y".toList] := by decide

private theorem splitOnP_glyphs (quote : Option Char) (text : List Char) :
    ∃ (first : List Char) (rest : List (List Char)),
      (glyphs quote text).splitOnP Glyph.separates =
        glyphs quote first :: rest.map (glyphs none) := by
  induction text generalizing quote with
  | nil => exact ⟨[], [], rfl⟩
  | cons character text induction =>
      rcases induction (Glyph.next ⟨quote, character⟩) with
        ⟨first, rest, words⟩
      rw [glyphs, List.splitOnP_cons_eq_if_modifyHead, words]
      split
      next separates =>
        rcases Bool.and_eq_true_iff.mp separates with ⟨unquoted, blank⟩
        rcases Option.isNone_iff_eq_none.mp unquoted with rfl
        rw [next_of_isBlank blank]
        exact ⟨[], first :: rest, rfl⟩
      · exact ⟨character :: first, rest, rfl⟩

/-- Each word is written as if it stood alone. -/
theorem split_eq_map_spelledWords (text : List Char) :
    split none text = (spelledWords text).map fun word =>
      (glyphs none word).flatMap Glyph.written := by
  rcases splitOnP_glyphs none text with ⟨first, rest, words⟩
  simp [split, spelledWords, words, map_character_glyphs]

/-! ## Parts of words -/

/-- A text that goes on with a word inside the same quotes, and what is written
for it. -/
structure Part (quote : Option Char) (text written : List Char) : Prop where
  joined : ∀ glyph ∈ glyphs quote text, glyph.separates = false
  closed : openAtEnd quote text = quote
  written_eq : (glyphs quote text).flatMap Glyph.written = written

namespace Part

variable {quote : Option Char} {text written : List Char}

theorem append {later writtenLater : List Char}
    (part : Part quote text written) (next : Part quote later writtenLater) :
    Part quote (text ++ later) (written ++ writtenLater) := by
  have glyphs_eq : glyphs quote (text ++ later) =
      glyphs quote text ++ glyphs quote later := by
    rw [glyphs_append, part.closed]
  refine ⟨?_, ?_, ?_⟩
  · rw [glyphs_eq]
    exact List.forall_mem_append.mpr ⟨part.joined, next.joined⟩
  · rw [openAtEnd_append, part.closed, next.closed]
  · rw [glyphs_eq, List.flatMap_append, part.written_eq, next.written_eq]

theorem quoted {opening : Char} (quoting : isQuote opening = true)
    (part : Part (some opening) text written) :
    Part none (opening :: (text ++ [opening])) written := by
  have opens : Glyph.next ⟨none, opening⟩ = some opening := by
    simp [Glyph.next, Glyph.isMark, quoting]
  have ends : Glyph.next ⟨some opening, opening⟩ = none := by
    simp [Glyph.next, Glyph.isMark]
  have visible : isBlank opening = false := by
    cases blank : isBlank opening with
    | false => rfl
    | true =>
        rw [Glyph.not_isQuote_of_isBlank blank] at quoting
        cases quoting
  have glyphs_eq : glyphs none (opening :: (text ++ [opening])) =
      ⟨none, opening⟩ :: (glyphs (some opening) text ++
        [⟨some opening, opening⟩]) := by
    rw [glyphs, opens, glyphs_append, part.closed]
    rfl
  refine ⟨?_, ?_, ?_⟩
  · rw [glyphs_eq, List.forall_mem_cons, List.forall_mem_append,
      List.forall_mem_singleton]
    exact ⟨visible, part.joined, rfl⟩
  · rw [openAtEnd, List.foldl_cons, opens, List.foldl_append]
    have still : text.foldl (fun quote character =>
        Glyph.next ⟨quote, character⟩) (some opening) = some opening :=
      part.closed
    rw [still]
    exact ends
  · have marks : Glyph.written ⟨none, opening⟩ = [] ∧
        Glyph.written ⟨some opening, opening⟩ = [] := by
      simp [Glyph.written, Glyph.isMark, quoting]
    simp [glyphs_eq, marks, part.written_eq]

theorem of_forall
    (joined : ∀ character ∈ text,
      Glyph.separates ⟨quote, character⟩ = false)
    (unmarked : ∀ character ∈ text,
      Glyph.isMark ⟨quote, character⟩ = false) :
    Part quote text (text.flatMap fun character =>
      Glyph.written ⟨quote, character⟩) := by
  induction text with
  | nil => exact ⟨nofun, rfl, rfl⟩
  | cons character rest induction =>
      rcases List.forall_mem_cons.mp joined with ⟨first, joined⟩
      rcases List.forall_mem_cons.mp unmarked with ⟨plain, unmarked⟩
      have stays : Glyph.next ⟨quote, character⟩ = quote := by
        rw [Glyph.next, plain]
      have later := induction joined unmarked
      refine ⟨?_, ?_, ?_⟩
      · rw [glyphs, stays, List.forall_mem_cons]
        exact ⟨first, later.joined⟩
      · rw [openAtEnd, List.foldl_cons, stays]
        exact later.closed
      · rw [glyphs, stays, List.flatMap_cons, later.written_eq,
          List.flatMap_cons]

theorem split_eq (part : Part none text written) :
    split none text = [written] := by
  rw [split, List.splitOnP_eq_singleton part.joined, List.map_singleton,
    part.written_eq]

end Part

/-! ## Encoded texts -/

def shield (character : Char) : List Char :=
  if isGuarded character then ['\\', character]
  else
    match original? character with
    | some original => ['\\', original]
    | none => [character]

theorem visible_of_unguarded {character : Char}
    (unguarded : isGuarded character = false) :
    isBlank character = false ∧ isShellMeta character = false ∧
      isQuote character = false := by
  simp only [isGuarded, Bool.or_eq_false_iff] at unguarded
  rcases unguarded with ⟨⟨visible, literal⟩, _⟩
  refine ⟨visible, literal, ?_⟩
  cases quotes : isQuote character with
  | false => rfl
  | true => rw [← literal, isShellMeta_of_isQuote quotes]

theorem encodeCharacter_of_unguarded {character : Char}
    (unguarded : isGuarded character = false) :
    encodeCharacter character = character := by
  rw [encodeCharacter, unguarded]
  rfl

theorem isGuarded_encodeCharacter (character : Char) :
    isGuarded (encodeCharacter character) = false := by
  cases guards : isGuarded character with
  | true =>
      have all : guarded.all (fun original =>
          !isGuarded (encodeCharacter original)) = true := by
        decide
      simpa using List.all_eq_true.mp all character
        (mem_guarded_iff.mpr guards)
  | false => rwa [encodeCharacter_of_unguarded guards]

namespace Glyph

variable {quote : Option Char}

theorem separates_encoded (quote : Option Char) (character : Char) :
    separates ⟨quote, encodeCharacter character⟩ = false := by
  rw [separates,
    (visible_of_unguarded (isGuarded_encodeCharacter character)).1,
    Bool.and_false]

theorem isMark_encoded (quoting : ∀ opening ∈ quote, isQuote opening = true)
    (character : Char) :
    isMark ⟨quote, encodeCharacter character⟩ = false := by
  have plain :=
    (visible_of_unguarded (isGuarded_encodeCharacter character)).2.2
  cases quote with
  | none => exact plain
  | some opening =>
      apply beq_false_of_ne
      intro same
      rw [show encodeCharacter character = opening from same,
        quoting opening rfl] at plain
      cases plain

private theorem escape_of_unguarded {character : Char}
    (unguarded : isGuarded character = false) :
    escape (shown character) = [character] := by
  rcases visible_of_unguarded unguarded with ⟨visible, literal, _⟩
  have same : shown character = character := by simp [shown, visible]
  rw [same]
  apply if_neg
  rintro (rfl | acts)
  · cases visible
  · simp [isShellMeta, acts] at literal

theorem written_encoded (quoting : ∀ opening ∈ quote, isQuote opening = true)
    (character : Char) :
    written ⟨quote, encodeCharacter character⟩ = shield character := by
  rw [written, isMark_encoded quoting, shield]
  cases guards : isGuarded character with
  | true =>
      have decoded := decodeCharacter?_encodeCharacter
        (mem_guarded_iff.mpr guards)
      rw [decodeCharacter?_eq_original?] at decoded
      simp [decoded]
  | false =>
      rw [encodeCharacter_of_unguarded guards]
      cases original? character with
      | none => simp [escape_of_unguarded guards]
      | some original => simp

end Glyph

/-- An encoded text is part of a word in any quotes, and what stood in front of
the encoding is written behind backslashes. -/
theorem Part.encoded {quote : Option Char}
    (quoting : ∀ opening ∈ quote, isQuote opening = true)
    (text : List Char) :
    Part quote (text.map encodeCharacter) (text.flatMap shield) := by
  have part : Part quote (text.map encodeCharacter)
      ((text.map encodeCharacter).flatMap fun character =>
        Glyph.written ⟨quote, character⟩) := by
    apply Part.of_forall
    · simp [Glyph.separates_encoded]
    · simp [Glyph.isMark_encoded quoting]
  simpa [List.flatMap_map, Glyph.written_encoded quoting] using part

def IsPlain (text : List Char) : Prop :=
  ∀ character ∈ text,
    isGuarded character = false ∧ original? character = none

namespace IsPlain

variable {text : List Char} (plain : IsPlain text)

include plain

theorem ne_dollar : ∀ character ∈ text, character ≠ '$' := by
  rintro character member rfl
  cases (plain _ member).1

theorem flatMap_shield : text.flatMap shield = text := by
  calc text.flatMap shield = text.flatMap (fun character => [character]) := by
        rw [List.flatMap, List.flatMap, List.map_congr_left]
        intro character member
        rcases plain character member with ⟨unguarded, unencoded⟩
        simp [shield, unguarded, unencoded]
    _ = text := List.flatMap_singleton' text

theorem map_encodeCharacter : text.map encodeCharacter = text := by
  calc text.map encodeCharacter = text.map id :=
      List.map_congr_left fun character member =>
        encodeCharacter_of_unguarded (plain character member).1
    _ = text := List.map_id text

theorem part {quote : Option Char}
    (quoting : ∀ opening ∈ quote, isQuote opening = true) :
    Part quote text text := by
  have encoded := Part.encoded quoting text
  rw [plain.map_encodeCharacter, plain.flatMap_shield] at encoded
  exact encoded

end IsPlain

end PkgConfig.Text
