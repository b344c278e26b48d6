import PkgConfig.Proofs.ValueGrammar

namespace PkgConfig.Metadata

open Text

/-! What the entries of a file are, as a grammar of whole files, and what is
made of them. -/

/-! ## The grammar of files -/

def EntryKind.separator : EntryKind → Char
  | .variable => '='
  | .field => ':'

def Begins (text : List Char) : Prop :=
  ∃ character rest, text = character :: rest ∧ isBlank character = false ∧
    character ≠ '#'

def Unseparated (text : List Char) : Prop :=
  '=' ∉ text ∧ ':' ∉ text ∧ '\n' ∉ text

instance (text : List Char) : Decidable (Unseparated text) :=
  inferInstanceAs (Decidable (_ ∧ _ ∧ _))

/-- `Document text entries`: the entries of a file, in their order. -/
inductive Document : List Char → List Entry → Prop
  | finished : Document [] []
  | blank (blank : isBlank character = true) (more : Document text entries) :
      Document (character :: text) entries
  | comment (inline : '\n' ∉ line) (close : LineEnd tail rest)
      (more : Document rest entries) : Document ('#' :: (line ++ tail)) entries
  | ignored (begins : Begins (line ++ tail)) (plain : Unseparated line)
      (close : LineEnd tail rest) (more : Document rest entries) :
      Document (line ++ tail) entries
  | entry (begins : Begins (label ++ EntryKind.separator kind :: text))
      (plain : Unseparated label) (reads : Value text value rest)
      (more : Document rest entries) :
      Document (label ++ kind.separator :: text)
        (⟨kind, String.ofList (label.rdropWhile isBlank),
          String.ofList value⟩ :: entries)

/-! ## Reading an entry -/

private theorem ofSeparator?_separator (kind : EntryKind) :
    EntryKind.ofSeparator? kind.separator = some kind := by
  cases kind <;> rfl

private theorem endsName_separator (kind : EntryKind) :
    endsName kind.separator = true := by
  cases kind <;> rfl

theorem readEntries_eq (text : List Char) :
    readEntries text = (readEntry text).1.toList ++
      readEntries (readEntry text).2 := by
  by_cases empty : text = []
  · have nothing : readEntries [] = [] := by
      rw [readEntries, dif_pos rfl]
    have read : readEntry [] = (none, []) := rfl
    rw [empty, read, nothing]
    rfl
  · rw [readEntries, dif_neg empty]

theorem readEntry_blank {character : Char} (blank : isBlank character = true)
    (text : List Char) : readEntry (character :: text) = readEntry text := by
  unfold readEntry
  rw [List.dropWhile_cons_of_pos blank]

theorem readEntry_comment {line tail rest : List Char} (inline : '\n' ∉ line)
    (close : LineEnd tail rest) :
    readEntry ('#' :: (line ++ tail)) = (none, rest) := by
  have visible : ¬ isBlank '#' = true := by decide
  rw [readEntry, List.dropWhile_cons_of_neg visible]
  exact congrArg _ (afterLine_append inline close)

private theorem readEntry_begins {text : List Char} (begins : Begins text) :
    readEntry text =
      match text.dropWhile (!endsName ·) with
      | [] => (none, [])
      | separator :: rest =>
          match EntryKind.ofSeparator? separator with
          | none => (none, rest)
          | some kind =>
              let (value, rest) := readValue [] [] (skipBlanks rest)
              (some ⟨kind, String.ofList
                (trimEnd (text.takeWhile (!endsName ·))),
                String.ofList value⟩, rest) := by
  rcases begins with ⟨character, rest, rfl, visible, different⟩
  have starts : (character :: rest).dropWhile isBlank = character :: rest :=
    List.dropWhile_cons_of_neg (by simp [visible])
  rw [readEntry, starts]
  split
  next empty => cases empty
  next comment =>
    cases comment
    exact absurd rfl different
  · rfl

theorem Unseparated.passed {text : List Char} (plain : Unseparated text) :
    ∀ character ∈ text, (!endsName character) = true := by
  rcases plain with ⟨equals, colon, newline⟩
  intro character member
  have noEquals : character ≠ '=' := fun same => equals (same ▸ member)
  have noColon : character ≠ ':' := fun same => colon (same ▸ member)
  have noNewline : character ≠ '\n' := fun same => newline (same ▸ member)
  simp [endsName, noEquals, noColon, noNewline]

theorem readEntry_ignored {line tail rest : List Char}
    (begins : Begins (line ++ tail)) (plain : Unseparated line)
    (close : LineEnd tail rest) : readEntry (line ++ tail) = (none, rest) := by
  rw [readEntry_begins begins, List.dropWhile_append_of_pos plain.passed]
  cases close with
  | newline => rfl
  | final => rfl

theorem readEntry_entry {kind : EntryKind} {label text value rest : List Char}
    (begins : Begins (label ++ kind.separator :: text))
    (plain : Unseparated label) (read : Value text value rest) :
    readEntry (label ++ kind.separator :: text) =
      (some ⟨kind, String.ofList (label.rdropWhile isBlank),
        String.ofList value⟩, rest) := by
  have stops : (!endsName kind.separator) = false := by
    simp [endsName_separator]
  rw [readEntry_begins begins, List.dropWhile_append_of_pos plain.passed,
    List.takeWhile_append_of_pos plain.passed, List.dropWhile_cons,
    List.takeWhile_cons, stops]
  simp only [Bool.false_eq_true, if_false, List.append_nil,
    ofSeparator?_separator, value_iff.mp read]
  rfl

/-! ## Reading a file -/

theorem Document.readEntries_eq {text : List Char} {entries : List Entry}
    (document : Document text entries) : readEntries text = entries := by
  induction document with
  | finished => rw [readEntries, dif_pos rfl]
  | blank blank _ induction =>
      rw [Metadata.readEntries_eq, readEntry_blank blank,
        ← Metadata.readEntries_eq, induction]
  | comment inline close _ induction =>
      rw [Metadata.readEntries_eq, readEntry_comment inline close, induction]
      rfl
  | ignored begins plain close _ induction =>
      rw [Metadata.readEntries_eq, readEntry_ignored begins plain close,
        induction]
      rfl
  | entry begins plain reads _ induction =>
      rw [Metadata.readEntries_eq, readEntry_entry begins plain reads,
        induction]
      rfl

private theorem exists_label (text : List Char) :
    ∃ label, Unseparated label ∧
      (text = label ∨ (∃ rest, text = label ++ '\n' :: rest) ∨
        ∃ kind rest, text = label ++ EntryKind.separator kind :: rest) := by
  have nothing : Unseparated [] :=
    ⟨List.not_mem_nil, List.not_mem_nil, List.not_mem_nil⟩
  induction text with
  | nil => exact ⟨[], nothing, .inl rfl⟩
  | cons head rest induction =>
      by_cases newline : head = '\n'
      · exact ⟨[], nothing, .inr (.inl ⟨rest, by rw [newline]; rfl⟩)⟩
      by_cases equals : head = '='
      · exact ⟨[], nothing, .inr (.inr ⟨.variable, rest, by rw [equals]; rfl⟩)⟩
      by_cases colon : head = ':'
      · exact ⟨[], nothing, .inr (.inr ⟨.field, rest, by rw [colon]; rfl⟩)⟩
      rcases induction with ⟨label, plain, parts⟩
      refine ⟨head :: label, ?_, ?_⟩
      · simpa [Unseparated, Ne.symm newline, Ne.symm equals, Ne.symm colon]
          using plain
      · simpa using parts

theorem exists_document (text : List Char) :
    ∃ entries, Document text entries := by
  induction measured : text.length using Nat.strongRecOn generalizing text with
  | ind length shorter =>
      have next : ∀ {entry rest}, text ≠ [] → readEntry text = (entry, rest) →
          ∃ entries, Document rest entries := by
        intro entry rest nonempty read
        have less := length_readEntry_lt nonempty
        rw [read, measured] at less
        exact shorter _ less rest rfl
      cases text with
      | nil => exact ⟨[], .finished⟩
      | cons head tail =>
          have nonempty := List.cons_ne_nil head tail
          by_cases blank : isBlank head = true
          · rcases shorter _ (by rw [← measured]; simp) tail rfl with
              ⟨entries, more⟩
            exact ⟨entries, .blank blank more⟩
          by_cases comment : head = '#'
          · rcases exists_lineEnd tail with ⟨line, left, parts, inline, close⟩
            rw [comment, parts] at next nonempty ⊢
            rcases next nonempty (readEntry_comment inline close) with
              ⟨entries, more⟩
            exact ⟨entries, .comment inline close more⟩
          have begins : Begins (head :: tail) :=
            ⟨head, tail, rfl, by simpa using blank, comment⟩
          rcases exists_label (head :: tail) with
            ⟨label, plain, whole | ⟨rest, parts⟩ | ⟨kind, rest, parts⟩⟩
          · rw [whole, ← List.append_nil label] at begins next ⊢
            exact ⟨[], .ignored begins plain .final .finished⟩
          · rw [parts] at begins next nonempty ⊢
            rcases next nonempty (readEntry_ignored begins plain .newline) with
              ⟨entries, more⟩
            exact ⟨entries, .ignored begins plain .newline more⟩
          · rw [parts] at begins next nonempty ⊢
            have reads := value_iff.mpr
              (Prod.eta (readValue [] [] (skipBlanks rest))).symm
            rcases next nonempty (readEntry_entry begins plain reads) with
              ⟨entries, more⟩
            exact ⟨_, .entry begins plain reads more⟩

private theorem document_iff {text : List Char} {entries : List Entry} :
    Document text entries ↔ entries = readEntries text := by
  constructor
  · intro document
    exact document.readEntries_eq.symm
  · rintro rfl
    rcases exists_document text with ⟨entries, document⟩
    rw [document.readEntries_eq]
    exact document

/-! ## Assembly -/

/-- An entry counts unless it is a field with an unknown name. -/
def Entry.Counts (entry : Entry) : Prop :=
  entry.kind = .field → ∃ field : Field, field.text = entry.name

def Repeats (earlier : List Entry) (entry : Entry) : Prop :=
  entry.Counts ∧ ∃ prior ∈ earlier, prior.kind = entry.kind ∧
    prior.name = entry.name

def Unrepeated (entries : List Entry) : Prop :=
  ∀ earlier entry later, entries = earlier ++ entry :: later →
    ¬ Repeats earlier entry

def Entry.duplicate (path : String) (entry : Entry) : Error :=
  match entry.kind with
  | .variable => .duplicateVariable entry.name path
  | .field => .duplicateField entry.name path

structure Holds (entries : List Entry) (metadata : Metadata) : Prop where
  bindings : ∀ name value, metadata.bindings.find? name = some value ↔
    ⟨.variable, name, value⟩ ∈ entries
  fields : ∀ field value, metadata.fields.find? field = some value ↔
    ⟨.field, field.text, value⟩ ∈ entries

/-- `Assembled path entries result`: what a file with these entries is. -/
inductive Assembled (path : String) :
    List Entry → Except Error Metadata → Prop
  | complete (unrepeated : Unrepeated entries)
      (holds : Holds entries metadata) : Assembled path entries (.ok metadata)
  | repeated (unrepeated : Unrepeated earlier)
      (repeats : Repeats earlier entry) :
      Assembled path (earlier ++ entry :: later)
        (.error (entry.duplicate path))

theorem holds_empty : Holds [] empty where
  bindings name value := by simp [empty]
  fields field value := by simp [empty]

theorem unrepeated_nil : Unrepeated [] := by
  rintro earlier entry later same
  exact absurd same.symm (List.append_ne_nil_of_right_ne_nil _
    (List.cons_ne_nil _ _))

private theorem Unrepeated.snoc {entries : List Entry} {last : Entry}
    (unrepeated : Unrepeated entries) (new : ¬ Repeats entries last) :
    Unrepeated (entries ++ [last]) := by
  intro earlier entry later parts
  rcases List.eq_nil_or_concat later with rfl | ⟨middle, final, rfl⟩
  · rcases List.append_inj' parts rfl with ⟨rfl, same⟩
    cases same
    exact new
  · apply unrepeated earlier entry middle
    rw [List.concat_eq_append, ← List.cons_append, ← List.append_assoc] at parts
    exact (List.append_inj' parts rfl).1

private theorem find?_insert_iff {Key Value : Type} [Ord Key] [Std.TransOrd Key]
    [Std.LawfulEqOrd Key] {table : Table Key Value} {key : Key}
    (new : table.contains key = false) (value : Value) (wanted : Key)
    (found : Value) :
    (table.insert key value).find? wanted = some found ↔
      table.find? wanted = some found ∨ wanted = key ∧ found = value := by
  have absent : table.find? key = none := by
    simpa [Table.contains] using new
  rw [Table.find?_insert]
  by_cases same : wanted = key
  · simp [same, absent, eq_comm]
  · simp [same]

private theorem ofText?_eq_some_iff {name : String} {field : Field} :
    Field.ofText? name = some field ↔ field.text = name := by
  constructor
  · intro found
    have equal := List.find?_some found
    simpa using equal
  · rintro rfl
    exact Field.ofText?_text field

namespace Holds

variable {earlier : List Entry} {metadata : Metadata}

private theorem repeats_variable_iff (holds : Holds earlier metadata)
    {name value : String} :
    Repeats earlier ⟨.variable, name, value⟩ ↔
      metadata.bindings.contains name = true := by
  constructor
  · rintro ⟨_, ⟨_, _, old⟩, member, kind, same⟩
    cases kind
    cases same
    exact Option.isSome_of_eq_some ((holds.bindings _ _).mpr member)
  · intro present
    rcases Option.isSome_iff_exists.mp present with ⟨old, bound⟩
    have counts : Entry.Counts ⟨.variable, name, value⟩ := by
      intro field
      cases field
    exact ⟨counts, _, (holds.bindings _ _).mp bound, rfl, rfl⟩

private theorem repeats_field_iff (holds : Holds earlier metadata)
    {field : Field} {value : String} :
    Repeats earlier ⟨.field, field.text, value⟩ ↔
      metadata.fields.contains field = true := by
  constructor
  · rintro ⟨_, ⟨_, _, old⟩, member, kind, same⟩
    cases kind
    cases same
    exact Option.isSome_of_eq_some ((holds.fields _ _).mpr member)
  · intro present
    rcases Option.isSome_iff_exists.mp present with ⟨old, bound⟩
    exact ⟨fun _ => ⟨field, rfl⟩, _, (holds.fields _ _).mp bound, rfl, rfl⟩

private theorem variable_added (holds : Holds earlier metadata) {name : String}
    (new : metadata.bindings.contains name = false) (value : String) :
    Holds (earlier ++ [⟨.variable, name, value⟩])
      { metadata with bindings := metadata.bindings.insert name value } where
  bindings wanted found := by
    simp [find?_insert_iff new, holds.bindings]
  fields field found := by
    simp [holds.fields]

private theorem field_added (holds : Holds earlier metadata) {field : Field}
    (new : metadata.fields.contains field = false) (value : String) :
    Holds (earlier ++ [⟨.field, field.text, value⟩])
      { metadata with fields := metadata.fields.insert field value } where
  bindings name found := by
    simp [holds.bindings]
  fields wanted found := by
    simp [find?_insert_iff new, holds.fields, Field.text_inj]

private theorem unknown_added (holds : Holds earlier metadata) {name : String}
    (unknown : Field.ofText? name = none) (value : String) :
    Holds (earlier ++ [⟨.field, name, value⟩]) metadata where
  bindings name found := by
    simp [holds.bindings]
  fields field found := by
    have different : field.text ≠ name := by
      intro same
      rw [ofText?_eq_some_iff.mpr same] at unknown
      cases unknown
    simp [holds.fields, different]

end Holds

private theorem add_step (path : String) {metadata : Metadata}
    {earlier : List Entry} (holds : Holds earlier metadata) (entry : Entry) :
    (∃ result, add path metadata entry = .ok result ∧
      ¬ Repeats earlier entry ∧ Holds (earlier ++ [entry]) result) ∨
    (add path metadata entry = .error (entry.duplicate path) ∧
      Repeats earlier entry) := by
  rcases entry with ⟨_ | _, name, value⟩
  · simp only [add, Table.insertNew?, holds.repeats_variable_iff]
    cases present : metadata.bindings.contains name with
    | true => exact .inr ⟨rfl, rfl⟩
    | false =>
        exact .inl ⟨_, rfl, Bool.false_ne_true,
          holds.variable_added present value⟩
  · cases known : Field.ofText? name with
    | none =>
        have ignored : ¬ Repeats earlier ⟨.field, name, value⟩ := by
          rintro ⟨counts, _⟩
          rcases counts rfl with ⟨field, same⟩
          rw [ofText?_eq_some_iff.mpr same] at known
          cases known
        simp only [add, known]
        exact .inl ⟨_, rfl, ignored, holds.unknown_added known value⟩
    | some field =>
        cases ofText?_eq_some_iff.mp known
        simp only [add, known, Table.insertNew?, holds.repeats_field_iff]
        cases present : metadata.fields.contains field with
        | true => exact .inr ⟨rfl, rfl⟩
        | false =>
            exact .inl ⟨_, rfl, Bool.false_ne_true,
              holds.field_added present value⟩

theorem assembled_foldlM (path : String) {metadata : Metadata}
    {earlier : List Entry} (unrepeated : Unrepeated earlier)
    (holds : Holds earlier metadata) (later : List Entry) :
    Assembled path (earlier ++ later) (later.foldlM (add path) metadata) := by
  induction later generalizing earlier metadata with
  | nil =>
      rw [List.append_nil]
      exact .complete unrepeated holds
  | cons entry rest induction =>
      rw [List.foldlM_cons]
      rcases add_step path holds entry with
        ⟨result, added, new, holds⟩ | ⟨failed, repeats⟩
      · rw [added, List.append_cons]
        exact induction (unrepeated.snoc new) holds
      · rw [failed]
        exact .repeated unrepeated repeats

/-- A file has one reading, and parsing it gives what the entries of that
reading make up. -/
theorem parse_assembled (source path : String) :
    ∃ entries, (∀ other, Document source.toList other ↔ other = entries) ∧
      Assembled path entries (parse source path) := by
  refine ⟨readEntries source.toList, fun _ => document_iff, ?_⟩
  exact assembled_foldlM path unrepeated_nil holds_empty _

end PkgConfig.Metadata
