import PkgConfig.Proofs.FileGrammar

namespace PkgConfig.Metadata

open Text

/-! Lines that end in a carriage return and a newline. They are read as lines
that end in a newline alone. -/

def withReturns (text : List Char) : List Char :=
  text.flatMap fun character =>
    if character = '\n' then ['\r', '\n'] else [character]

@[simp] theorem withReturns_newline (text : List Char) :
    withReturns ('\n' :: text) = '\r' :: '\n' :: withReturns text := rfl

private theorem withReturns_cons {character : Char} (inline : character ≠ '\n')
    (text : List Char) :
    withReturns (character :: text) = character :: withReturns text := by
  simp [withReturns, inline]

@[simp] theorem withReturns_append (left right : List Char) :
    withReturns (left ++ right) = withReturns left ++ withReturns right :=
  List.flatMap_append

private theorem withReturns_eq_self {line : List Char} (inline : '\n' ∉ line) :
    withReturns line = line := by
  induction line with
  | nil => rfl
  | cons head line induction =>
      rw [List.mem_cons, not_or] at inline
      rw [withReturns_cons (Ne.symm inline.1), induction inline.2]

private theorem exists_of_withReturns_eq_cons {text behind : List Char}
    {character : Char} (inline : ∀ more, text ≠ '\n' :: more)
    (same : withReturns text = character :: behind) :
    ∃ more, text = character :: more := by
  cases text with
  | nil => cases same
  | cons head text =>
      have bare : head ≠ '\n' := by
        rintro rfl
        exact inline text rfl
      rw [withReturns_cons bare] at same
      cases same
      exact ⟨text, rfl⟩

/-! ## Lines -/

private theorem LineEnd.withReturns {tail rest : List Char}
    (close : LineEnd tail rest) :
    ∃ returns behind, Metadata.withReturns tail = returns ++ behind ∧
      Unseparated returns ∧ LineEnd behind (Metadata.withReturns rest) := by
  cases close with
  | newline => exact ⟨['\r'], _, rfl, by decide, .newline⟩
  | final => exact ⟨[], [], rfl, by decide, .final⟩

theorem LineEnd.suffix {tail rest : List Char} (close : LineEnd tail rest) :
    rest <:+ tail := by
  cases close with
  | newline => exact List.suffix_cons _ _
  | final => exact List.suffix_rfl

private theorem afterLine_withReturns (text : List Char) :
    afterLine (withReturns text) = withReturns (afterLine text) := by
  rcases exists_lineEnd text with ⟨line, tail, same, inline, close⟩
  rcases close.withReturns with ⟨returns, behind, parts, plain, close⟩
  have within : '\n' ∉ line ++ returns := by
    simpa using ⟨inline, plain.2.2⟩
  rw [same, withReturns_append, withReturns_eq_self inline, parts,
    ← List.append_assoc, afterLine_append within close]
  exact congrArg _ (by rw [← same])

/-! ## Values -/

private theorem readValue_withReturns (kept held : List Char) {text : List Char}
    (plain : '\r' ∉ text) :
    readValue kept held (withReturns text) =
      ((readValue kept held text).1,
        withReturns (readValue kept held text).2) := by
  fun_induction readValue kept held text with
  | case1 kept held => rfl
  | case2 kept held rest => rfl
  | case3 kept held rest =>
      rw [withReturns_cons (by decide), readValue, afterLine_withReturns]
  | case4 kept held rest induction =>
      rw [withReturns_cons (by decide), withReturns_cons (by decide), readValue,
        induction (by simp_all)]
  | case5 kept held rest induction =>
      rw [withReturns_cons (by decide), withReturns_newline, readValue,
        induction (by simp_all)]
  | case6 kept held rest => simp at plain
  | case7 kept held rest hash newline carriage induction =>
      -- No newline follows the backslash, so what follows it stays as it was.
      rw [List.mem_cons, not_or] at plain
      rw [withReturns_cons (by decide), readValue, induction plain.2]
      · intro behind same
        rcases exists_of_withReturns_eq_cons newline same with ⟨more, same⟩
        exact hash more same
      · intro behind same
        rcases exists_of_withReturns_eq_cons newline same with ⟨more, same⟩
        exact newline more same
      · intro behind same
        rcases exists_of_withReturns_eq_cons newline same with ⟨more, rfl⟩
        exact plain.2 List.mem_cons_self
  | case8 kept held character rest newline hash _ _ _ different blank
      induction =>
      rw [List.mem_cons, not_or] at plain
      rw [withReturns_cons newline, readValue, if_pos blank, induction plain.2]
        <;> intros <;> contradiction
  | case9 kept held character rest newline hash _ _ _ different blank
      induction =>
      rw [List.mem_cons, not_or] at plain
      rw [withReturns_cons newline, readValue, if_neg blank, induction plain.2]
        <;> intros <;> contradiction

/-- In front of a bare newline, the carriage return is a blank. -/
theorem readValue_skipBlanks_withReturns {text : List Char}
    (plain : '\r' ∉ text) :
    readValue [] [] (skipBlanks (withReturns text)) =
      ((readValue [] [] (skipBlanks text)).1,
        withReturns (readValue [] [] (skipBlanks text)).2) := by
  fun_induction skipBlanks text with
  | case1 rest induction =>
      rw [withReturns_cons (by decide), withReturns_newline, skipBlanks,
        induction (by simp_all)]
  | case2 rest => simp at plain
  | case3 rest => rfl
  | case4 character rest newline carriage inline blank induction =>
      rw [List.mem_cons, not_or] at plain
      have different : character ≠ '\\' := by
        rintro rfl
        cases blank
      rw [withReturns_cons inline, skipBlanks, if_pos blank,
        induction plain.2] <;> intros <;> contradiction
  | case5 character rest newline carriage inline visible =>
      rw [withReturns_cons inline, skipBlanks, if_neg visible,
        ← withReturns_cons inline, readValue_withReturns [] [] plain]
      · intro behind escape same
        have bare := fun more => newline more escape
        rcases exists_of_withReturns_eq_cons bare same with ⟨more, same⟩
        exact newline more escape same
      · intro behind escape same
        have bare := fun more => newline more escape
        rcases exists_of_withReturns_eq_cons bare same with ⟨more, rfl⟩
        simp at plain
      · exact inline
  | case6 => rfl

theorem Value.suffix {text value rest : List Char}
    (reads : Value text value rest) : rest <:+ text := by
  rcases reads with ⟨_, _, ⟨ends, _⟩⟩
  refine List.IsSuffix.trans ?_ (List.suffix_append _ _)
  refine List.IsSuffix.trans ?_ (List.suffix_append _ _)
  cases ends with
  | final => exact List.suffix_rfl
  | newline => exact List.suffix_cons _ _
  | comment _ _ close =>
      exact (close.suffix.trans (List.suffix_append _ _)).trans
        (List.suffix_cons _ _)

private theorem Value.withReturns {text value rest : List Char}
    (reads : Value text value rest) (plain : '\r' ∉ text) :
    Value (Metadata.withReturns text) value (Metadata.withReturns rest) := by
  rw [value_iff] at reads ⊢
  rw [readValue_skipBlanks_withReturns plain, reads]

/-! ## Files -/

private theorem Begins.withReturns {text : List Char} (begins : Begins text) :
    Begins (Metadata.withReturns text) := by
  rcases begins with ⟨character, rest, rfl, visible, different⟩
  have inline : character ≠ '\n' := by
    rintro rfl
    cases visible
  exact ⟨character, _, withReturns_cons inline rest, visible, different⟩

theorem Unseparated.append {left right : List Char} (first : Unseparated left)
    (second : Unseparated right) : Unseparated (left ++ right) := by
  simp_all [Unseparated]

private theorem EntryKind.separator_ne_newline (kind : EntryKind) :
    kind.separator ≠ '\n' := by
  cases kind <;> decide

private theorem Document.withReturns {text : List Char} {entries : List Entry}
    (document : Document text entries) (plain : '\r' ∉ text) :
    Document (Metadata.withReturns text) entries := by
  induction document with
  | finished => exact .finished
  | @blank character text entries blank more induction =>
      rw [List.mem_cons, not_or] at plain
      by_cases newline : character = '\n'
      · subst newline
        exact .blank rfl (.blank rfl (induction plain.2))
      · rw [withReturns_cons newline]
        exact .blank blank (induction plain.2)
  | @comment line tail rest entries inline close more induction =>
      rw [List.mem_cons, not_or, List.mem_append, not_or] at plain
      have behind := mt close.suffix.mem plain.2.2
      rcases close.withReturns with ⟨returns, tail, parts, bare, close⟩
      have within : '\n' ∉ line ++ returns := by
        simpa using ⟨inline, bare.2.2⟩
      rw [withReturns_cons (by decide), withReturns_append,
        withReturns_eq_self inline, parts, ← List.append_assoc]
      exact .comment within close (induction behind)
  | @ignored line tail rest entries begins bare close more induction =>
      rw [List.mem_append, not_or] at plain
      have behind := mt close.suffix.mem plain.2
      have begins := begins.withReturns
      rcases close.withReturns with ⟨returns, tail, parts, empty, close⟩
      rw [withReturns_append, withReturns_eq_self bare.2.2, parts,
        ← List.append_assoc] at begins ⊢
      exact .ignored begins (bare.append empty) close (induction behind)
  | @entry label kind text value rest entries begins bare reads more
      induction =>
      rw [List.mem_append, not_or, List.mem_cons, not_or] at plain
      have behind := mt reads.suffix.mem plain.2.2
      have begins := begins.withReturns
      rw [withReturns_append, withReturns_eq_self bare.2.2,
        withReturns_cons kind.separator_ne_newline] at begins ⊢
      exact .entry begins bare (reads.withReturns plain.2.2) (induction behind)

/-- A file whose lines end in a carriage return and a newline is read as if they
ended in a newline alone. -/
theorem parse_withReturns {source : String} (plain : '\r' ∉ source.toList)
    (path : String) :
    parse (String.ofList (withReturns source.toList)) path =
      parse source path := by
  rcases exists_document source.toList with ⟨entries, document⟩
  rw [parse, parse, String.toList_ofList,
    (document.withReturns plain).readEntries_eq, document.readEntries_eq]

/-- In a comment, a line without an entry, an empty value, a continued one and
behind a comment. -/
theorem parse_withReturns_lines :
    parse "# c \\\r\nn\r\nv=\r\nName: \\\r\n a \\\r\nb\r\nURL:u#d\r\n" "a.pc" =
      parse "# c \\\nn\nv=\nName: \\\n a \\\nb\nURL:u#d\n" "a.pc" := by
  have plain :
      '\r' ∉ "# c \\\nn\nv=\nName: \\\n a \\\nb\nURL:u#d\n".toList := by
    decide
  exact parse_withReturns plain "a.pc"

end PkgConfig.Metadata
