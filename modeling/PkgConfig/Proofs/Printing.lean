import Mathlib.Data.List.Nodup
import PkgConfig.Proofs.FileGrammar

namespace PkgConfig.Metadata

open Text

/-! Writing files. With one line for each entry, and hash signs escaped so that
none of them starts a comment, every file can be read back. -/

/-! ## Lines -/

def escapeHashes (value : List Char) : List Char :=
  value.flatMap fun character =>
    if character = '#' then ['\\', '#'] else [character]

def EntryKind.mark : EntryKind → List Char
  | .variable => [' ', '=', ' ']
  | .field => [':', ' ']

namespace Entry

def ofVariable (binding : String × String) : Entry :=
  ⟨.variable, binding.1, binding.2⟩

def ofField (field : Field × String) : Entry :=
  ⟨.field, field.1.text, field.2⟩

def line (entry : Entry) : List Char :=
  entry.name.toList ++ entry.kind.mark ++ escapeHashes entry.value.toList

end Entry

/-- One entry per line. `close` is the end of the last line. -/
def print (close : List Char) : List Entry → List Char
  | [] => []
  | [entry] => entry.line ++ close
  | entry :: next :: rest => entry.line ++ '\n' :: print close (next :: rest)

example : print ['\n'] [⟨.variable, "a", "#1"⟩, ⟨.field, "Libs", "-la"⟩] =
    "a = \\#1\nLibs: -la\n".toList := by decide

/-! ## What can be written -/

def Trimmed (text : List Char) : Prop :=
  (∀ character ∈ text.head?, isBlank character = false) ∧
    ∀ character ∈ text.getLast?, isBlank character = false

structure WritableName (name : String) : Prop where
  unseparated : Unseparated name.toList
  trimmed : Trimmed name.toList
  notComment : name.toList.head? ≠ some '#'

structure WritableValue (value : String) : Prop where
  inline : '\n' ∉ value.toList
  trimmed : Trimmed value.toList
  unbroken : value.toList.getLast? ≠ some '\\'

private theorem writableName_text (field : Field) :
    WritableName field.text := by
  constructor
  · cases field <;> simp [Field.text, Unseparated]
  · cases field <;> simp [Field.text, Trimmed, isBlank, blanks]
  · cases field <;> simp [Field.text]

/-! ## Escaped hash signs -/

private theorem escapeHashes_cons (character : Char) (rest : List Char) :
    escapeHashes (character :: rest) =
      (if character = '#' then ['\\', '#'] else [character]) ++
        escapeHashes rest :=
  List.flatMap_cons

private theorem newline_not_mem_escapeHashes {value : List Char}
    (inline : '\n' ∉ value) : '\n' ∉ escapeHashes value := by
  intro member
  rcases List.mem_flatMap.mp member with ⟨character, listed, written⟩
  split at written
  · simp at written
  · rw [List.mem_singleton.mp written] at inline
    exact inline listed

private theorem escaped_hash {value front more : List Char}
    (parts : front ++ '#' :: more = escapeHashes value) :
    Escaped front '#' := by
  have behind : ∃ earlier, front = earlier ++ ['\\'] := by
    induction value generalizing front with
    | nil => simp [escapeHashes] at parts
    | cons character rest induction =>
        rw [escapeHashes_cons] at parts
        split at parts
        · rcases front with _ | ⟨first, _ | ⟨second, front⟩⟩
          · simp at parts
          · rw [(List.cons.inj parts).1]
            exact ⟨[], rfl⟩
          · rcases induction (List.cons.inj (List.cons.inj parts).2).2 with
              ⟨earlier, rfl⟩
            exact ⟨first :: second :: earlier, rfl⟩
        next plain =>
          rcases front with _ | ⟨first, front⟩
          · exact absurd (List.cons.inj parts).1.symm plain
          · rcases induction (List.cons.inj parts).2 with ⟨earlier, rfl⟩
            exact ⟨first :: earlier, rfl⟩
  rcases behind with ⟨earlier, rfl⟩
  exact ⟨['\\', '#'], by decide, earlier, by simp⟩

private theorem head?_escapeHashes_ne (value : List Char) :
    (escapeHashes value).head? ≠ some '#' := by
  cases value with
  | nil => simp [escapeHashes]
  | cons character rest =>
      rw [escapeHashes_cons]
      split
      · simp
      next plain => simpa using plain

private theorem getLast?_escapeHashes (value : List Char) :
    (escapeHashes value).getLast? = value.getLast? := by
  rcases List.eq_nil_or_concat value with rfl | ⟨front, last, rfl⟩
  · rfl
  · rw [List.concat_eq_append, escapeHashes, List.flatMap_append]
    by_cases hash : last = '#' <;> simp [hash]

private theorem unescape_escapeHashes {value : List Char}
    (inline : '\n' ∉ value) : unescape (escapeHashes value) = value := by
  induction value with
  | nil => rfl
  | cons character rest induction =>
      rcases not_or.mp (mt List.mem_cons.mpr inline) with ⟨_, inline⟩
      have unbroken := newline_not_mem_escapeHashes inline
      have bare := head?_escapeHashes_ne rest
      rw [escapeHashes_cons]
      split
      next hash => simp [unescape, induction inline, hash]
      · rw [List.singleton_append, unescape, induction inline]
        · rintro more - same
          simp [same] at bare
        · rintro more - same
          simp [same] at unbroken
        · rintro more - same
          simp [same] at unbroken

/-! ## Values -/

private theorem exists_of_mem_lineBreaks {piece : List Char}
    (lineBreak : piece ∈ lineBreaks) :
    ∃ front last, piece = front ++ [last] ++ ['\n'] ∧
      isTrailing last = true ∧ '\n' ∉ front ++ [last] := by
  rcases mem_lineBreaks_iff.mp lineBreak with rfl | rfl
  · exact ⟨[], '\\', rfl, by decide, by decide⟩
  · exact ⟨['\\'], '\r', rfl, by decide, by decide⟩

namespace WritableValue

variable {value : String} (writable : WritableValue value)

include writable

private theorem visible_last {front : List Char} {last : Char}
    (parts : escapeHashes value.toList = front ++ [last]) :
    isTrailing last = false := by
  have ends : value.toList.getLast? = some last := by
    rw [← getLast?_escapeHashes, parts, List.getLast?_concat]
  have visible := writable.trimmed.2 last ends
  have other : last ≠ '\\' := by
    rintro rfl
    exact writable.unbroken ends
  simp [isTrailing, visible, other]

private theorem not_escaped_newline :
    ¬ Escaped (escapeHashes value.toList) '\n' := by
  rintro ⟨piece, escape, earlier, parts⟩
  rcases List.mem_cons.mp escape with rfl | lineBreak
  · have last := congrArg List.getLast? parts
    simp at last
  · rcases exists_of_mem_lineBreaks lineBreak with ⟨front, last, rfl, trailing, _⟩
    rw [← List.append_assoc, ← List.append_assoc] at parts
    have whole := (List.append_inj' parts rfl).1
    rw [writable.visible_last whole.symm] at trailing
    cases trailing

private theorem valueEnd {tail rest : List Char} (close : LineEnd tail rest) :
    ValueEnd (escapeHashes value.toList) tail rest := by
  cases close with
  | newline => exact .newline writable.not_escaped_newline
  | final => exact .final

theorem extent {tail rest : List Char} (close : LineEnd tail rest) :
    Extent (escapeHashes value.toList ++ tail) (escapeHashes value.toList)
      rest := by
  refine .ending (writable.valueEnd close) ?_
  intro front back parts nonempty other ends
  cases back with
  | nil => exact nonempty rfl
  | cons character more =>
      rcases ends.not_escaped with ⟨rfl | rfl, bare⟩
      · apply newline_not_mem_escapeHashes writable.inline
        rw [← parts]
        simp
      · exact bare (escaped_hash parts)

private theorem rdropWhile_eq_self :
    (escapeHashes value.toList).rdropWhile isTrailing =
      escapeHashes value.toList := by
  rcases List.eq_nil_or_concat (escapeHashes value.toList) with
    empty | ⟨front, last, parts⟩
  · rw [empty]
    rfl
  · rw [List.concat_eq_append] at parts
    rw [parts, List.rdropWhile_concat_neg]
    simp [writable.visible_last parts]

private theorem visible_first :
    ∀ character ∈ (escapeHashes value.toList).head?,
      isBlank character = false := by
  have visible := writable.trimmed.1
  intro character first
  cases whole : value.toList with
  | nil => simp [whole, escapeHashes] at first
  | cons head rest =>
      rw [whole] at first visible
      rw [escapeHashes_cons] at first
      split at first
      · cases Option.some.inj first
        decide
      · cases Option.some.inj first
        exact visible _ rfl

private theorem not_lineBreak {tail rest piece : List Char}
    (close : LineEnd tail rest) (lineBreak : piece ∈ lineBreaks) :
    ¬ piece <+: escapeHashes value.toList ++ tail := by
  have unbroken := newline_not_mem_escapeHashes writable.inline
  rintro ⟨more, parts⟩
  rcases exists_of_mem_lineBreaks lineBreak with
    ⟨front, last, rfl, trailing, inside⟩
  have apart : escapeHashes value.toList ≠ front ++ [last] := by
    intro same
    rw [writable.visible_last same] at trailing
    cases trailing
  rw [List.append_assoc (front ++ [last])] at parts
  -- The newline of the break would have to be the one that ends the line.
  rcases List.append_eq_append_iff.mp parts with
    ⟨middle, same, behind⟩ | ⟨middle, same, behind⟩
  · cases middle with
    | nil => exact apart (by simpa using same)
    | cons first middle =>
        cases (List.cons.inj behind).1
        simp [same] at unbroken
  · cases middle with
    | nil => exact apart (by simpa using same.symm)
    | cons first middle =>
        cases close with
        | newline =>
            cases (List.cons.inj behind).1
            simp [same] at inside
        | final => cases behind

theorem furthest {tail rest : List Char} (close : LineEnd tail rest)
    (more : List Char) (indent : Indent more)
    (found : more <+: escapeHashes value.toList ++ tail) : more = [] := by
  cases indent with
  | nothing => rfl
  | @blank character text blank inline _ =>
      rcases found with ⟨behind, parts⟩
      cases written : escapeHashes value.toList with
      | nil =>
          rw [written] at parts
          cases close with
          | newline => exact absurd (List.cons.inj parts).1 inline
          | final => cases parts
      | cons first others =>
          rw [written] at parts
          cases (List.cons.inj parts).1
          rw [writable.visible_first character (by simp [written])] at blank
          cases blank
  | lineBreak lineBreak _ =>
      exact absurd ((List.prefix_append _ _).trans found)
        (writable.not_lineBreak close lineBreak)

theorem reads {tail rest : List Char} (close : LineEnd tail rest) :
    Value (' ' :: (escapeHashes value.toList ++ tail)) value.toList rest := by
  have space : Indent [' '] := .blank (by decide) (by decide) .nothing
  have read := Value.indented space (writable.furthest close)
    (writable.extent close)
  rw [writable.rdropWhile_eq_self, unescape_escapeHashes writable.inline]
    at read
  exact read

end WritableValue

/-! ## Entries -/

structure Entry.Writable (entry : Entry) : Prop where
  name : WritableName entry.name
  value : WritableValue entry.value

private theorem WritableName.rdropWhile_eq_self {name : String}
    (writable : WritableName name) :
    name.toList.rdropWhile isBlank = name.toList := by
  rcases List.eq_nil_or_concat name.toList with empty | ⟨front, last, parts⟩
  · rw [empty]
    rfl
  · rw [List.concat_eq_append] at parts
    have visible := writable.trimmed.2 last (by rw [parts]; simp)
    rw [parts, List.rdropWhile_concat_neg]
    simp [visible]

private theorem begins_label {label : List Char}
    (starts : ∀ character ∈ label.head?,
      isBlank character = false ∧ character ≠ '#')
    (kind : EntryKind) (text : List Char) :
    Begins (label ++ kind.separator :: text) := by
  cases label with
  | nil => exact ⟨_, _, rfl, by cases kind <;> decide, by cases kind <;> decide⟩
  | cons character rest =>
      rcases starts character rfl with ⟨visible, different⟩
      exact ⟨_, _, rfl, visible, different⟩

theorem WritableName.starts {name : String} (writable : WritableName name) :
    ∀ character ∈ name.toList.head?,
      isBlank character = false ∧ character ≠ '#' := by
  intro character first
  refine ⟨writable.trimmed.1 character first, ?_⟩
  rintro rfl
  exact writable.notComment first

namespace Entry.Writable

variable {entry : Entry} {tail rest : List Char} {entries : List Entry}

private theorem document_label (writable : entry.Writable) {label : List Char}
    (starts : ∀ character ∈ label.head?,
      isBlank character = false ∧ character ≠ '#')
    (plain : Unseparated label)
    (named : label.rdropWhile isBlank = entry.name.toList)
    (close : LineEnd tail rest) (more : Document rest entries) :
    Document (label ++ entry.kind.separator ::
      ' ' :: (escapeHashes entry.value.toList ++ tail)) (entry :: entries) := by
  have read := Document.entry (begins_label starts entry.kind _) plain
    (writable.value.reads close) more
  rw [named, String.ofList_toList, String.ofList_toList] at read
  exact read

theorem document (writable : entry.Writable) (close : LineEnd tail rest)
    (more : Document rest entries) :
    Document (entry.line ++ tail) (entry :: entries) := by
  have starts := writable.name.starts
  have plain := writable.name.unseparated
  have shown := writable.name.rdropWhile_eq_self
  have read := fun label => @document_label entry tail rest entries writable label
  cases kind : entry.kind
  · cases name : entry.name.toList with
    | nil =>
        -- The line starts with the blank in front of the separator.
        rw [name] at starts plain shown
        have line := read [] starts plain (by rw [name]; rfl) close more
        have blank := Document.blank (by decide : isBlank ' ' = true) line
        simpa [Entry.line, name, kind, EntryKind.mark, EntryKind.separator]
          using blank
    | cons first others =>
        have line := read (entry.name.toList ++ [' '])
          (by simpa [name] using starts) (by simpa [Unseparated] using plain)
          (by rw [List.rdropWhile_concat_pos _ _ _ (by decide), shown])
          close more
        simpa [Entry.line, name, kind, EntryKind.mark, EntryKind.separator]
          using line
  · have line := read _ starts plain shown close more
    simpa [Entry.line, kind, EntryKind.mark, EntryKind.separator] using line

end Entry.Writable

private theorem document_print {close : List Char} (ends : LineEnd close [])
    {entries : List Entry} (writable : ∀ entry ∈ entries, entry.Writable) :
    Document (print close entries) entries := by
  fun_induction print close entries with
  | case1 => exact .finished
  | case2 entry =>
      exact (writable entry (List.mem_singleton_self _)).document ends .finished
  | case3 entry next rest induction =>
      rcases List.forall_mem_cons.mp writable with ⟨first, writable⟩
      exact first.document .newline (induction writable)

/-! ## Files -/

private theorem unrepeated_of_nodup {entries : List Entry}
    (distinct : (entries.map fun entry => (entry.kind, entry.name)).Nodup) :
    Unrepeated entries := by
  rintro earlier entry later rfl ⟨_, prior, member, kind, name⟩
  rw [List.map_append, List.map_cons, List.nodup_append] at distinct
  exact distinct.2.2 _ (List.mem_map_of_mem member) _ (List.mem_cons_self ..)
    (Prod.ext kind name)

private theorem nodup_of_listed {bindings : List (String × String)}
    {fields : List (Field × String)} {entries : List Entry}
    (distinct : (bindings.map Prod.fst).Nodup)
    (once : (fields.map Prod.fst).Nodup)
    (listed : entries.Perm
      (bindings.map Entry.ofVariable ++ fields.map Entry.ofField)) :
    (entries.map fun entry => (entry.kind, entry.name)).Nodup := by
  rw [(listed.map _).nodup_iff, List.map_append, List.nodup_append]
  simp only [List.map_map]
  refine ⟨?_, ?_, ?_⟩
  · have named : Function.Injective (Prod.mk EntryKind.variable (β := String)) :=
      fun _ _ same => (Prod.mk.inj same).2
    have apart := distinct.map named
    rwa [List.map_map] at apart
  · have named : Function.Injective fun field : Field =>
        (EntryKind.field, field.text) :=
      fun _ _ same => Field.text_inj.mp (Prod.mk.inj same).2
    have apart := once.map named
    rwa [List.map_map] at apart
  · intro first left second right same
    rcases List.mem_map.mp left with ⟨_, _, rfl⟩
    rcases List.mem_map.mp right with ⟨_, _, rfl⟩
    cases (Prod.mk.inj same).1

/-- Variables with names of their own and values for some of the fields, written
in any order with one line for each, are read back as they are, and nothing else
is read. -/
theorem parse_print {bindings : List (String × String)}
    {fields : List (Field × String)} {entries : List Entry} {close : List Char}
    (distinct : (bindings.map Prod.fst).Nodup)
    (once : (fields.map Prod.fst).Nodup)
    (names : ∀ binding ∈ bindings, WritableName binding.1)
    (values : ∀ binding ∈ bindings, WritableValue binding.2)
    (contents : ∀ field ∈ fields, WritableValue field.2)
    (listed : entries.Perm
      (bindings.map Entry.ofVariable ++ fields.map Entry.ofField))
    (ends : LineEnd close []) (path : String) :
    ∃ metadata,
      parse (String.ofList (print close entries)) path = .ok metadata ∧
      (∀ name value, metadata.bindings.find? name = some value ↔
        (name, value) ∈ bindings) ∧
      ∀ field value, metadata.fields.find? field = some value ↔
        (field, value) ∈ fields := by
  have writable : ∀ entry ∈ entries, entry.Writable := by
    intro entry member
    rcases List.mem_append.mp (listed.mem_iff.mp member) with given | given
    · rcases List.mem_map.mp given with ⟨binding, bound, rfl⟩
      exact ⟨names binding bound, values binding bound⟩
    · rcases List.mem_map.mp given with ⟨field, known, rfl⟩
      exact ⟨writableName_text field.1, contents field known⟩
  have read := (document_print ends writable).readEntries_eq
  have assembled := assembled_foldlM path unrepeated_nil holds_empty entries
  have unrepeated := unrepeated_of_nodup (nodup_of_listed distinct once listed)
  rw [parse, String.toList_ofList, read]
  rw [List.nil_append] at assembled
  generalize entries.foldlM (add path) empty = result at assembled
  cases assembled with
  | repeated _ repeats => exact absurd repeats (unrepeated _ _ _ rfl)
  | complete _ holds =>
      refine ⟨_, rfl, ?_, ?_⟩
      · intro name value
        rw [holds.bindings, listed.mem_iff, List.mem_append]
        simp [Entry.ofVariable, Entry.ofField]
      · intro field value
        rw [holds.fields, listed.mem_iff, List.mem_append]
        simp [Entry.ofVariable, Entry.ofField, Field.text_inj]

/-- A field between two variables, hash signs next to backslashes, a variable
without a name, and a last line without an end. -/
theorem parse_print_mixed :
    ∃ metadata,
      parse "prefix = \\#a\\\\#b\\ c\nLibs: -L\\#x\n = " "x.pc" = .ok metadata ∧
      (∀ name value, metadata.bindings.find? name = some value ↔
        (name, value) ∈ [("prefix", "#a\\#b\\ c"), ("", "")]) ∧
      ∀ field value, metadata.fields.find? field = some value ↔
        (field, value) ∈ [(Field.libs, "-L#x")] := by
  have written : String.ofList (print [] [⟨.variable, "prefix", "#a\\#b\\ c"⟩,
      ⟨.field, "Libs", "-L#x"⟩, ⟨.variable, "", ""⟩]) =
      "prefix = \\#a\\\\#b\\ c\nLibs: -L\\#x\n = " := by decide
  rw [← written]
  apply parse_print (by decide) (by decide) _ _ _ (by decide) .final
  · simp only [List.forall_mem_cons]
    refine ⟨⟨?_, ?_, ?_⟩, ⟨?_, ?_, ?_⟩, by simp⟩ <;>
      simp [Unseparated, Trimmed, isBlank, blanks]
  · simp only [List.forall_mem_cons]
    refine ⟨⟨?_, ?_, ?_⟩, ⟨?_, ?_, ?_⟩, by simp⟩ <;>
      simp [Trimmed, isBlank, blanks]
  · simp only [List.forall_mem_cons]
    refine ⟨⟨?_, ?_, ?_⟩, by simp⟩ <;> simp [Trimmed, isBlank, blanks]

end PkgConfig.Metadata
