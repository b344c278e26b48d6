import PkgConfig.Emission
import PkgConfig.Proofs.Charges

namespace PkgConfig.Text

/-! Splitting a whole field at once. Every character is looked at together with
the quote that it stands in; that alone decides whether it separates words,
belongs to the quoting, or is written. Taking words off the field one by one
comes to the same. -/

/-! ## Encoded characters -/

def guarded : List Char := blanks ++ shellMeta ++ ['$', '(', ')']

def original? (character : Char) : Option Char :=
  guarded.find? fun original => encodeCharacter original == character

theorem mem_guarded_iff {character : Char} :
    character ∈ guarded ↔ isGuarded character = true := by
  simp [guarded, isGuarded, isBlank, isShellMeta, or_assoc]

private theorem toNat_of_isGuarded {offset : Nat}
    (isIt : isGuarded (Char.ofNat offset) = true) :
    (Char.ofNat offset).toNat = offset := by
  by_cases valid : offset.isValidChar
  · have same : Char.ofNat offset = Char.ofNatAux offset valid := dif_pos valid
    rw [same]
    rfl
  · have zero : Char.ofNat offset = Char.ofNat 0 := dif_neg valid
    rw [zero] at isIt
    exact absurd isIt (by decide)

theorem encodeCharacter_of_decodeCharacter? {character original : Char}
    (decoded : decodeCharacter? character = some original) :
    original ∈ guarded ∧ encodeCharacter original = character := by
  unfold decodeCharacter? at decoded
  split at decoded
  next beyond =>
    dsimp only at decoded
    split at decoded
    next isIt =>
      rcases Option.some.inj decoded with rfl
      have whole := Nat.add_sub_cancel' beyond
      refine ⟨mem_guarded_iff.mpr isIt, ?_⟩
      simp only [encodeCharacter, isIt, if_true, toNat_of_isGuarded isIt, whole,
        Char.ofNat_toNat]
    · cases decoded
  · cases decoded

theorem decodeCharacter?_encodeCharacter {original : Char}
    (listed : original ∈ guarded) :
    decodeCharacter? (encodeCharacter original) = some original := by
  have all : guarded.all (fun original =>
      decodeCharacter? (encodeCharacter original) == some original) = true := by
    decide
  exact beq_iff_eq.mp (List.all_eq_true.mp all original listed)

theorem decodeCharacter?_eq_original? (character : Char) :
    decodeCharacter? character = original? character := by
  apply Option.ext
  intro original
  constructor
  · intro decoded
    have encoded := encodeCharacter_of_decodeCharacter? decoded
    cases found : original? character with
    | none =>
        have absent := List.find?_eq_none.mp found original encoded.1
        simp [encoded.2] at absent
    | some other =>
        have same := List.find?_some found
        have listed := List.mem_of_find?_eq_some found
        rw [← beq_iff_eq.mp same, decodeCharacter?_encodeCharacter listed]
          at decoded
        exact decoded
  · intro found
    have same := List.find?_some found
    rw [← beq_iff_eq.mp same]
    exact decodeCharacter?_encodeCharacter (List.mem_of_find?_eq_some found)

private theorem plain_of_decodeCharacter? {character original : Char}
    (decoded : decodeCharacter? character = some original) :
    isBlank character = false ∧ isQuote character = false := by
  rcases encodeCharacter_of_decodeCharacter? decoded with ⟨listed, rfl⟩
  have all : guarded.all (fun original =>
      !isBlank (encodeCharacter original) &&
        !isQuote (encodeCharacter original)) = true := by
    decide
  simpa using List.all_eq_true.mp all original listed

/-! ## Glyphs -/

/-- A character of a field and the quote that is open in front of it. -/
structure Glyph where
  quote : Option Char
  character : Char
  deriving DecidableEq, Repr

namespace Glyph

def isMark (glyph : Glyph) : Bool :=
  match glyph.quote with
  | none => isQuote glyph.character
  | some opening => glyph.character == opening

def next (glyph : Glyph) : Option Char :=
  match glyph.isMark, glyph.quote with
  | true, none => some glyph.character
  | true, some _ => none
  | false, quote => quote

def separates (glyph : Glyph) : Bool :=
  glyph.quote.isNone && isBlank glyph.character

def shown (character : Char) : Char :=
  if isBlank character then ' ' else character

def escape (character : Char) : List Char :=
  if character = ' ' ∨ character ∈ shellMeta then ['\\', character]
  else [character]

def written (glyph : Glyph) : List Char :=
  if glyph.isMark then []
  else
    match original? glyph.character with
    | some original => ['\\', original]
    | none => escape (shown glyph.character)

end Glyph

def glyphs (quote : Option Char) : List Char → List Glyph
  | [] => []
  | character :: rest =>
      ⟨quote, character⟩ :: glyphs (Glyph.next ⟨quote, character⟩) rest

def openAtEnd (quote : Option Char) (text : List Char) : Option Char :=
  text.foldl (fun quote character => Glyph.next ⟨quote, character⟩) quote

/-- The words of a text as they are written, empty ones included. The last one
is not complete if a quote is open at the end. -/
def split (quote : Option Char) (text : List Char) : List (List Char) :=
  ((glyphs quote text).splitOnP Glyph.separates).map (·.flatMap Glyph.written)

def completeWords (text : List Char) : List (List Char) :=
  if (openAtEnd none text).isNone then split none text
  else (split none text).dropLast

example : completeWords "-I\"my dir\"'' x".toList =
    ["-Imy\\ dir".toList, ['x']] := by decide

example : completeWords "ok 'a\" b".toList = [['o', 'k']] := by decide

theorem split_ne_nil (quote : Option Char) (text : List Char) :
    split quote text ≠ [] := by
  simp [split, List.splitOnP_ne_nil]

theorem split_cons (quote : Option Char) (character : Char)
    (rest : List Char) :
    split quote (character :: rest) =
      if Glyph.separates ⟨quote, character⟩ then
        [] :: split (Glyph.next ⟨quote, character⟩) rest
      else
        (split (Glyph.next ⟨quote, character⟩) rest).modifyHead
          (Glyph.written ⟨quote, character⟩ ++ ·) := by
  simp only [split, glyphs, List.splitOnP_cons_eq_if_modifyHead]
  split
  · simp
  · rcases List.exists_cons_of_ne_nil (List.splitOnP_ne_nil Glyph.separates
      (glyphs (Glyph.next ⟨quote, character⟩) rest)) with ⟨word, words, same⟩
    simp [same]

/-! ## One word -/

namespace Glyph

theorem not_isQuote_of_isBlank {character : Char}
    (blank : isBlank character = true) : isQuote character = false := by
  have all : blanks.all (fun character => !isQuote character) = true := by
    decide
  have listed : character ∈ blanks := by simpa [isBlank] using blank
  simpa using List.all_eq_true.mp all character listed

private theorem isQuote_shown (character : Char) :
    isQuote (shown character) = isQuote character := by
  unfold shown
  split
  next blank => rw [not_isQuote_of_isBlank blank]; rfl
  · rfl

private theorem shown_of_isQuote {character : Char}
    (quoting : isQuote character = true) : shown character = character := by
  apply if_neg
  intro blank
  rw [not_isQuote_of_isBlank blank] at quoting
  cases quoting

theorem shown_beq_space (character : Char) :
    (shown character == ' ') = isBlank character := by
  unfold shown
  split
  next blank => rw [blank]; rfl
  next visible =>
    rw [Bool.eq_false_iff.mpr visible]
    apply beq_false_of_ne
    rintro rfl
    exact visible rfl

private theorem shown_beq_quote {opening : Char}
    (quoting : isQuote opening = true) (character : Char) :
    (shown character == opening) = (character == opening) := by
  unfold shown
  split
  next blank =>
    have space : (' ' == opening) = false := by
      apply beq_false_of_ne
      rintro rfl
      cases quoting
    have same : (character == opening) = false := by
      apply beq_false_of_ne
      rintro rfl
      rw [not_isQuote_of_isBlank blank] at quoting
      cases quoting
    rw [space, same]
  · rfl

theorem escapeOnto_eq (word : List Char) (character : Char) :
    Word.escapeOnto word character = (escape character).reverse ++ word := by
  unfold Word.escapeOnto escape
  by_cases acts : character = ' ' ∨ character ∈ shellMeta
  · have acting : (character == ' ' || isShellMeta character) = true := by
      simpa [isShellMeta] using acts
    simp [acts, acting]
  · have quiet : (character == ' ' || isShellMeta character) = false := by
      simpa [isShellMeta] using acts
    simp [acts, quiet]

private theorem isMark_of_decodeCharacter? {quote : Option Char}
    {character original : Char}
    (quoting : ∀ opening ∈ quote, isQuote opening = true)
    (decoded : decodeCharacter? character = some original) :
    isMark ⟨quote, character⟩ = false := by
  have plain := (plain_of_decodeCharacter? decoded).2
  cases quote with
  | none => exact plain
  | some opening =>
      apply beq_false_of_ne
      intro same
      rw [show character = opening from same, quoting opening rfl] at plain
      cases plain

theorem isQuote_of_next {quote : Option Char} {character : Char}
    (quoting : ∀ opening ∈ quote, isQuote opening = true) :
    ∀ opening ∈ next ⟨quote, character⟩, isQuote opening = true := by
  intro opening opened
  unfold next at opened
  split at opened
  next marks unquoted =>
    cases opened
    rw [show quote = none from unquoted] at marks
    exact marks
  · cases opened
  · exact quoting opening opened

end Glyph

/-- What a scan does with a character is decided by its glyph. -/
theorem Word.scan_cons {quote : Option Char}
    (quoting : ∀ opening ∈ quote, isQuote opening = true)
    (word : List Char) (character : Char) (rest : List Char) :
    scan quote word (character :: rest) =
      if Glyph.separates ⟨quote, character⟩ then
        ⟨word.reverse, character :: rest, true⟩
      else
        scan (Glyph.next ⟨quote, character⟩)
          ((Glyph.written ⟨quote, character⟩).reverse ++ word) rest := by
  rw [scan]
  cases decoded : decodeCharacter? character with
  | some original =>
      have unmarked := Glyph.isMark_of_decodeCharacter? quoting decoded
      have visible := (plain_of_decodeCharacter? decoded).1
      rw [decodeCharacter?_eq_original?] at decoded
      simp [Glyph.separates, Glyph.next, Glyph.written, unmarked, visible,
        decoded]
  | none =>
      rw [decodeCharacter?_eq_original?] at decoded
      have shows : (if isBlank character then ' ' else character) =
          Glyph.shown character := rfl
      simp only [shows, Glyph.isQuote_shown, Glyph.shown_beq_space,
        Glyph.escapeOnto_eq]
      cases quote with
      | some opening =>
          simp only [Glyph.shown_beq_quote (quoting opening rfl)]
          by_cases closes : (character == opening) = true
          · simp [Glyph.separates, Glyph.next, Glyph.written, Glyph.isMark,
              closes]
          · simp [Glyph.separates, Glyph.next, Glyph.written, Glyph.isMark,
              closes, decoded]
      | none =>
          by_cases opens : isQuote character = true
          · have visible : isBlank character = false := by
              rw [← Glyph.shown_beq_space, Glyph.shown_of_isQuote opens]
              apply beq_false_of_ne
              rintro rfl
              cases opens
            simp [Glyph.separates, Glyph.next, Glyph.written, Glyph.isMark,
              visible, opens, Glyph.shown_of_isQuote opens]
          · by_cases blank : isBlank character = true
            · simp [Glyph.separates, blank, opens]
            · simp [Glyph.separates, Glyph.next, Glyph.written, Glyph.isMark,
                blank, opens, decoded]

theorem next_of_isBlank {character : Char} (blank : isBlank character = true) :
    Glyph.next ⟨none, character⟩ = none := by
  simp [Glyph.next, Glyph.isMark, Glyph.not_isQuote_of_isBlank blank]

private theorem split_blank {character : Char}
    (blank : isBlank character = true) (rest : List Char) :
    split none (character :: rest) = [] :: split none rest := by
  rw [split_cons, next_of_isBlank blank]
  exact if_pos (by simpa [Glyph.separates] using blank)

private theorem openAtEnd_blank {character : Char}
    (blank : isBlank character = true) (rest : List Char) :
    openAtEnd none (character :: rest) = openAtEnd none rest := by
  rw [openAtEnd, List.foldl_cons, next_of_isBlank blank]
  rfl

/-- The first word of a text, as its characters decide it: what is written for
it, and the other words, which are those of the rest. -/
structure Takes (quote : Option Char) (text written : List Char)
    (others : List (List Char)) (taken : Word) : Prop where
  split_text : split quote text = written :: others
  split_rest : split none taken.rest = [] :: others
  more : (openAtEnd none taken.rest).isNone = false → others ≠ []
  complete : taken.closed = true →
    openAtEnd quote text = openAtEnd none taken.rest
  unfinished : taken.closed = false →
    taken.rest = [] ∧ (openAtEnd quote text).isNone = false

theorem takes_scan {quote : Option Char}
    (quoting : ∀ opening ∈ quote, isQuote opening = true)
    (word text : List Char) :
    ∃ written others,
      (Word.scan quote word text).escaped = word.reverse ++ written ∧
        Takes quote text written others (Word.scan quote word text) := by
  induction text generalizing quote word with
  | nil =>
      refine ⟨[], [], (List.append_nil _).symm, rfl, rfl, ?_, ?_, ?_⟩
      · intro opened
        cases opened
      · intro closed
        exact Option.isNone_iff_eq_none.mp closed
      · intro unfinished
        exact ⟨rfl, unfinished⟩
  | cons character rest induction =>
      rw [Word.scan_cons quoting]
      split
      next separates =>
        have ends := Bool.and_eq_true_iff.mp separates
        have unquoted : quote = none := Option.isNone_iff_eq_none.mp ends.1
        have blank := split_blank ends.2 rest
        refine ⟨[], split none rest, (List.append_nil _).symm, ?_, blank, ?_, ?_,
          ?_⟩
        · rw [unquoted, blank]
        · exact fun _ => split_ne_nil none rest
        · intro _
          rw [unquoted]
        · intro unfinished
          cases unfinished
      next inside =>
        rcases induction (Glyph.isQuote_of_next quoting)
          ((Glyph.written ⟨quote, character⟩).reverse ++ word) with
          ⟨written, others, escaped, takes⟩
        refine ⟨Glyph.written ⟨quote, character⟩ ++ written, others, ?_, ?_,
          takes.split_rest, takes.more, takes.complete, takes.unfinished⟩
        · simp [escaped]
        · rw [split_cons, if_neg inside, takes.split_text]
          rfl

/-! ## All words -/

def splitWords (text : List Char) : List (List Char) :=
  (completeWords text).filter (!·.isEmpty)

private theorem completeWords_blank {character : Char}
    (blank : isBlank character = true) (rest : List Char) :
    completeWords (character :: rest) = [] :: completeWords rest := by
  rw [completeWords, completeWords, openAtEnd_blank blank, split_blank blank]
  split
  · rfl
  · exact List.dropLast_cons_of_ne_nil (split_ne_nil none rest)

theorem split_dropWhile (text : List Char) :
    splitWords (text.dropWhile isBlank) = splitWords text ∧
      (split none (text.dropWhile isBlank)).flatten =
        (split none text).flatten ∧
      openAtEnd none (text.dropWhile isBlank) = openAtEnd none text := by
  induction text with
  | nil => exact ⟨rfl, rfl, rfl⟩
  | cons character rest induction =>
      rw [List.dropWhile_cons]
      split
      next blank =>
        rcases induction with ⟨words, written, opened⟩
        rw [words, written, opened, splitWords, splitWords,
          completeWords_blank blank, split_blank blank, openAtEnd_blank blank]
        exact ⟨rfl, rfl, rfl⟩
      · exact ⟨rfl, rfl, rfl⟩

namespace Takes

variable {text written : List Char} {others : List (List Char)} {taken : Word}

private theorem flatten_split (takes : Takes none text written others taken) :
    (split none text).flatten = written ++ (split none taken.rest).flatten := by
  rw [takes.split_text, takes.split_rest]
  rfl

theorem splitWords_of_closed (takes : Takes none text written others taken)
    (closed : taken.closed = true) :
    splitWords text =
      [written].filter (!·.isEmpty) ++ splitWords taken.rest := by
  rw [splitWords, splitWords, completeWords, completeWords,
    takes.complete closed, takes.split_text, takes.split_rest]
  cases opened : (openAtEnd none taken.rest).isNone with
  | true =>
      simp only [if_true]
      rw [← List.singleton_append, List.filter_append]
      rfl
  | false =>
      have more := takes.more opened
      simp only [Bool.false_eq_true, if_false,
        List.dropLast_cons_of_ne_nil more]
      rw [← List.singleton_append, List.filter_append]
      rfl

theorem splitWords_of_unclosed (takes : Takes none text written others taken)
    (unclosed : taken.closed = false) : splitWords text = [] := by
  rcases takes.unfinished unclosed with ⟨ended, opened⟩
  have alone : others = [] := by
    have single := takes.split_rest
    rw [ended] at single
    exact (List.cons.inj single).2.symm
  rw [splitWords, completeWords, opened, takes.split_text, alone]
  rfl

end Takes

/-! ## Word by word -/

theorem Word.charge_eq_ok {word : Word} {before after : Ledger}
    (charged : before.Charged (byteLength word.escaped) after) :
    word.charge before =
      .ok word.closed (if word.closed then after else before) := by
  have each := Run.chargeEach_eq_ok_iff.mpr charged
  cases closed : word.closed with
  | true => simp [charge, bind, EStateM.bind, Run.used, each, closed]
  | false =>
      simp [charge, bind, EStateM.bind, Run.used, each, closed, Run.release,
        charged.release_eq]

/-- Take words off a text until nothing of it is left or a quote stays open, and
tell whether all quotes were closed. Empty words are dropped. -/
def takeWords (text : List Char) : Run (List String × Bool) :=
  if _nonempty : text = [] then
    return ([], true)
  else do
    let word := Word.ofText text
    if ← word.charge then
      let (words, closed) ← takeWords word.rest
      return (([word.escaped].filter (!·.isEmpty)).map String.ofList ++ words,
        closed)
    else
      return ([], false)
termination_by text.length
decreasing_by exact Word.length_rest_ofText ‹_›

theorem takeWords_eq_splitWords (text : List Char) (before : Ledger)
    (enough : before.used + byteLength (split none text).flatten ≤
      before.budget.capacity) :
    ∃ after,
      takeWords text before = .ok ((splitWords text).map String.ofList,
        (openAtEnd none text).isNone) after ∧
      before.Charged (byteLength (splitWords text).flatten) after := by
  induction measured : text.length using Nat.strongRecOn generalizing
    text before with
  | ind length shorter =>
  rw [takeWords]
  by_cases empty : text = []
  · rw [dif_pos empty, empty]
    exact ⟨before, rfl, .nothing before⟩
  · rw [dif_neg empty]
    have less := Word.length_rest_ofText empty
    rcases split_dropWhile text with ⟨words, written, opened⟩
    rcases @takes_scan none (by simp) [] (text.dropWhile isBlank) with
      ⟨first, others, escaped, takes⟩
    have ofText : Word.scan none [] (text.dropWhile isBlank) =
        Word.ofText text := rfl
    rw [ofText] at escaped takes
    rw [List.reverse_nil, List.nil_append] at escaped
    rw [← written, takes.flatten_split, byteLength_append] at enough
    have fits : before.used + byteLength first ≤ before.budget.capacity := by
      omega
    rcases Ledger.Charged.exists_of_fits fits with ⟨between, charged⟩
    rw [← escaped] at charged
    have charge := Word.charge_eq_ok charged
    rw [← words, ← opened]
    cases closed : (Word.ofText text).closed with
    | true =>
        have room := charged.used
        rw [escaped] at room
        rcases shorter _ (measured ▸ less) (Word.ofText text).rest between
          (by rw [room, charged.capacity]; omega) rfl with
          ⟨after, taken, later⟩
        refine ⟨after, ?_, ?_⟩
        · simp [bind, EStateM.bind, charge, closed, taken, pure, EStateM.pure,
            takes.splitWords_of_closed closed, takes.complete closed, escaped]
        · have alone : ([first].filter (!·.isEmpty)).flatten = first := by
            cases first <;> simp
          rw [takes.splitWords_of_closed closed, List.flatten_append, alone]
          rw [escaped] at charged
          exact Ledger.Charged.append_iff.mpr ⟨between, charged, later⟩
    | false =>
        refine ⟨before, ?_, ?_⟩
        · simp [bind, EStateM.bind, charge, closed, pure, EStateM.pure,
            takes.splitWords_of_unclosed closed, (takes.unfinished closed).2]
        · rw [takes.splitWords_of_unclosed closed]
          exact .nothing before

theorem fieldWords_eq_takeWords (realname : String) (words : List String)
    (text : List Char) :
    fieldWords realname words text = takeWords text >>= fun (taken, closed) =>
      if closed then pure (words.reverse ++ taken)
      else throw (.unmatchedQuote realname) := by
  induction measured : text.length using Nat.strongRecOn generalizing
    words text with
  | ind length shorter =>
  rw [fieldWords, takeWords]
  by_cases empty : text = []
  · simp [empty]
  · have less := Word.length_rest_ofText empty
    rw [measured] at less
    simp only [empty, dif_neg, not_false_eq_true, bind_assoc]
    congr
    funext closed
    cases closed with
    | false => rfl
    | true =>
        simp only [if_true, shorter _ less _ _ rfl, bind_assoc, pure_bind]
        congr
        funext ⟨taken, closed⟩
        cases (Word.ofText text).escaped <;> simp

/-- With a budget for all that is written, taking words off a text until nothing
is left gives the complete words of the text, and fails if a quote is open at the
end. Only complete words are charged. -/
theorem takeWords_splits (text : List Char) (before : Ledger)
    (enough : before.used + byteLength (split none text).flatten ≤
      before.budget.capacity) :
    ∃ after,
      takeWords text before = .ok ((splitWords text).map String.ofList,
        (openAtEnd none text).isNone) after ∧
      before.Charged (byteLength (splitWords text).flatten) after ∧
      ∀ realname, fieldWords realname [] text before =
        if (openAtEnd none text).isNone then
          .ok ((splitWords text).map String.ofList) after
        else .error (.unmatchedQuote realname) after := by
  rcases takeWords_eq_splitWords text before enough with ⟨after, taken, charged⟩
  refine ⟨after, taken, charged, fun realname => ?_⟩
  rw [fieldWords_eq_takeWords]
  simp only [bind, EStateM.bind, taken, List.reverse_nil, List.nil_append]
  split <;> rfl

def unclosedField : List Char := "-I'my dir' -l\"x".toList

theorem takeWords_splits_unclosed :
    (Ledger.fresh 100).used + byteLength (split none unclosedField).flatten ≤
        (Ledger.fresh 100).budget.capacity ∧
      ∃ after,
        takeWords unclosedField (.fresh 100) = .ok (["-Imy\\ dir"], false) after ∧
        after.used = 9 ∧
        fieldWords "x" [] unclosedField (.fresh 100) =
          .error (.unmatchedQuote "x") after := by
  have enough : (Ledger.fresh 100).used +
      byteLength (split none unclosedField).flatten ≤
        (Ledger.fresh 100).budget.capacity := by decide
  have words : (splitWords unclosedField).map String.ofList = ["-Imy\\ dir"] := by
    decide
  have bytes : byteLength (splitWords unclosedField).flatten = 9 := by decide
  have opened : (openAtEnd none unclosedField).isNone = false := by decide
  rcases takeWords_splits unclosedField _ enough with
    ⟨after, taken, charged, failed⟩
  rw [words, opened] at taken
  refine ⟨enough, after, taken, ?_, ?_⟩
  · rw [charged.used, bytes]
    rfl
  · rw [failed, opened]
    rfl

end PkgConfig.Text
