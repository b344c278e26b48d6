import PkgConfig.Proofs.FileGrammar

namespace PkgConfig.Metadata

open Text

/-! Line breaks inside of values. An escaped line break can be put into a value
without a trace, except behind a backslash and into another escape. -/

/-! ## Places between escapes -/

private theorem cut_cases {front back : List Char}
    (escape : front ++ back ∈ escapes)
    (begun : front ≠ []) (unfinished : back ≠ []) :
    (front = ['\\'] ∨ front = ['\\', '\r'] ∧ back = ['\n']) ∧
      back.head? ≠ some '\\' := by
  -- Each escape is cut at each place.
  rcases mem_escapes_iff.mp escape with same | same | same <;>
    rcases front with _ | ⟨first, _ | ⟨second, _ | ⟨third, front⟩⟩⟩ <;>
    simp_all

/-- No escape lies across the place between the texts. -/
def Apart (left right : List Char) : Prop :=
  ∀ front back, front ++ back ∈ escapes → front ≠ [] → back ≠ [] →
    front <:+ left → ¬ back <+: right

namespace Apart

variable {left right : List Char}

theorem mono (apart : Apart left right) {first second : List Char}
    (behind : first <:+ left) (ahead : second <+: right) :
    Apart first second :=
  fun front back escape begun unfinished suffix found =>
    apart front back escape begun unfinished (suffix.trans behind)
      (found.trans ahead)

private theorem of_unbroken (bare : left.getLast? ≠ some '\\')
    (whole : ¬ (['\\', '\r'] <:+ left ∧ right.head? = some '\n')) :
    Apart left right := by
  intro front back escape begun unfinished suffix found
  rcases (cut_cases escape begun unfinished).1 with rfl | ⟨rfl, rfl⟩
  · rcases suffix with ⟨earlier, rfl⟩
    exact bare List.getLast?_concat
  · rcases found with ⟨later, rfl⟩
    exact whole ⟨suffix, rfl⟩

private theorem lineBreak_ahead {piece : List Char}
    (lineBreak : piece ∈ lineBreaks)
    (left right : List Char) : Apart left (piece ++ right) := by
  rintro front back escape begun unfinished - found
  have start := (cut_cases escape begun unfinished).2
  rcases List.exists_cons_of_ne_nil unfinished with ⟨character, rest, rfl⟩
  rcases mem_lineBreaks_iff.mp lineBreak with rfl | rfl
  · exact start (congrArg some (List.cons_prefix_cons.mp found).1)
  · exact start (congrArg some (List.cons_prefix_cons.mp found).1)

private theorem lineBreak_behind {piece : List Char}
    (lineBreak : piece ∈ lineBreaks)
    (left right : List Char) : Apart (left ++ piece) right := by
  have last : (left ++ piece).getLast? = some '\n' := by
    rcases mem_lineBreaks_iff.mp lineBreak with rfl | rfl <;> simp
  apply of_unbroken
  · simp [last]
  · rintro ⟨⟨earlier, same⟩, _⟩
    simp [← same] at last

private theorem prefix_left (apart : Apart left right) {piece : List Char}
    (escape : piece ∈ escapes) (nonempty : left ≠ [])
    (found : piece <+: left ++ right) : piece <+: left := by
  rcases found with ⟨more, parts⟩
  rcases List.append_eq_append_iff.mp parts with
    ⟨rest, within, _⟩ | ⟨rest, across, behind⟩
  · exact ⟨rest, within.symm⟩
  · cases rest with
    | nil => exact ⟨[], by simpa using across⟩
    | cons head rest =>
        rw [across] at escape
        exact absurd ⟨more, behind.symm⟩
          (apart _ _ escape nonempty (List.cons_ne_nil _ _) List.suffix_rfl)

private theorem escaped_iff {middle : List Char} {close : Char}
    (apart : Apart left (middle ++ [close])) :
    Escaped (left ++ middle) close ↔ Escaped middle close := by
  constructor
  · rintro ⟨piece, escape, front, parts⟩
    rw [List.append_assoc] at parts
    rcases List.append_eq_append_iff.mp parts with
      ⟨begun, within, rfl⟩ | ⟨between, _, behind⟩
    · cases begun with
      | nil => exact ⟨_, escape, List.suffix_rfl⟩
      | cons head begun =>
          exact absurd List.prefix_rfl (apart _ _ escape (List.cons_ne_nil _ _)
            (by simp) ⟨front, within.symm⟩)
    · exact ⟨piece, escape, between, behind.symm⟩
  · rintro ⟨piece, escape, suffix⟩
    refine ⟨piece, escape, suffix.trans ⟨left, ?_⟩⟩
    rw [List.append_assoc]

end Apart

theorem unescape_append {left right : List Char} (apart : Apart left right) :
    unescape (left ++ right) = unescape left ++ unescape right := by
  fun_induction unescape left with
  | case1 rest induction =>
      have behind := apart.mono (List.suffix_append ['\\', '#'] rest)
        List.prefix_rfl
      simp [unescape, induction behind]
  | case2 rest induction =>
      have behind := apart.mono (List.suffix_append ['\\', '\n'] rest)
        List.prefix_rfl
      simp [unescape, induction behind]
  | case3 rest induction =>
      have behind := apart.mono (List.suffix_append ['\\', '\r', '\n'] rest)
        List.prefix_rfl
      simp [unescape, induction behind]
  | case4 character rest hash newline carriage induction =>
      have behind := apart.mono (List.suffix_cons character rest)
        List.prefix_rfl
      rw [List.cons_append, unescape_literal, induction behind,
        List.cons_append]
      intro piece escape found
      rcases apart.prefix_left escape (List.cons_ne_nil _ _) found with
        ⟨more, same⟩
      rcases mem_escapes_iff.mp escape with rfl | rfl | rfl
      · exact hash more (List.cons.inj same).1.symm (List.cons.inj same).2.symm
      · exact newline more (List.cons.inj same).1.symm
          (List.cons.inj same).2.symm
      · exact carriage more (List.cons.inj same).1.symm
          (List.cons.inj same).2.symm
  | case5 => rfl

/-! ## Extents -/

theorem Escaped.mono {front body : List Char} {character : Char}
    (escaped : Escaped front character) (behind : front <:+ body) :
    Escaped body character := by
  rcases escaped with ⟨piece, escape, suffix⟩
  rcases behind with ⟨earlier, rfl⟩
  refine ⟨piece, escape, suffix.trans ⟨earlier, ?_⟩⟩
  rw [List.append_assoc]

private theorem ValueEnd.exists_of_bare {body : List Char} {character : Char}
    (closes : character = '\n' ∨ character = '#')
    (bare : ¬ Escaped body character) (text : List Char) :
    ∃ rest, ValueEnd body (character :: text) rest := by
  rcases closes with rfl | rfl
  · exact ⟨text, .newline bare⟩
  · rcases exists_lineEnd text with ⟨line, tail, same, inline, close⟩
    rw [same]
    exact ⟨_, .comment bare inline close⟩

theorem ValueEnd.apart {body tail rest : List Char}
    (ends : ValueEnd body tail rest) : Apart body tail := by
  rintro front back escape - unfinished behind ⟨more, rfl⟩
  rcases List.exists_cons_of_ne_nil unfinished with ⟨character, back, rfl⟩
  rcases ends.not_escaped with ⟨closes, bare⟩
  rcases exists_of_bare closes (fun escaped => bare (escaped.mono behind))
    (back ++ more) with ⟨other, earlier⟩
  exact not_inside escape rfl unfinished earlier

/-- Nothing in the text can end a value: the newlines and hash signs in it are
escaped. -/
def Unended (body : List Char) : Prop :=
  ∀ front character back, front ++ character :: back = body →
    character = '\n' ∨ character = '#' → Escaped front character

namespace Unended

variable {left right : List Char}

private theorem of_escape {piece : List Char} (escape : piece ∈ escapes) :
    Unended piece := by
  intro front character back parts closes
  by_contra bare
  rcases ValueEnd.exists_of_bare closes bare back with ⟨other, earlier⟩
  rw [← List.append_nil back] at earlier
  exact ValueEnd.not_inside escape parts (List.cons_ne_nil _ _) earlier

theorem append (first : Unended left) (second : Unended right) :
    Unended (left ++ right) := by
  intro front character back parts closes
  rcases List.append_eq_append_iff.mp parts with
    ⟨rest, within, behind⟩ | ⟨middle, rfl, behind⟩
  · cases rest with
    | nil =>
        have escaped := second [] character back behind closes
        exact escaped.mono (List.nil_suffix)
    | cons head rest =>
        rw [List.cons_append] at behind
        cases behind
        exact first front character rest within.symm closes
  · exact (second middle character back behind.symm closes).mono
      (List.suffix_append ..)

private theorem of_append_left (unended : Unended (left ++ right)) :
    Unended left := by
  rintro front character back rfl closes
  exact unended front character (back ++ right) (by simp) closes

private theorem of_append_right (unended : Unended (left ++ right))
    (apart : Apart left right) : Unended right := by
  rintro front character back rfl closes
  have escaped := unended (left ++ front) character back (by simp) closes
  have ahead : front ++ [character] <+: front ++ character :: back := by simp
  exact (apart.mono List.suffix_rfl ahead).escaped_iff.mp escaped

end Unended

private theorem extent_iff {text body rest : List Char} :
    Extent text body rest ↔
      ∃ tail, text = body ++ tail ∧ ValueEnd body tail rest ∧ Unended body := by
  constructor
  · rintro ⟨ends, first⟩
    rename_i tail
    refine ⟨tail, rfl, ends, ?_⟩
    intro front character back parts closes
    by_contra bare
    rcases ValueEnd.exists_of_bare closes bare (back ++ tail) with
      ⟨other, earlier⟩
    exact first front (character :: back) parts (List.cons_ne_nil _ _) other
      earlier
  · rintro ⟨tail, rfl, ends, unended⟩
    refine .ending ends ?_
    intro front back parts nonempty other earlier
    rcases List.exists_cons_of_ne_nil nonempty with ⟨character, back, rfl⟩
    rcases earlier.not_escaped with ⟨closes, bare⟩
    exact bare (unended front character back parts closes)

/-- An escaped line break in a value does not end it, and changes nothing about
its end. -/
theorem Extent.insert {left right rest tail piece : List Char}
    (extent : Extent (left ++ (right ++ tail)) (left ++ right) rest)
    (apart : Apart left (right ++ tail)) (lineBreak : piece ∈ lineBreaks) :
    Extent (left ++ (piece ++ (right ++ tail))) (left ++ (piece ++ right))
      rest := by
  rcases extent_iff.mp extent with ⟨behind, parts, ends, unended⟩
  rw [← List.append_assoc, List.append_right_inj] at parts
  subst parts
  have apartRight := apart.mono List.suffix_rfl (List.prefix_append right tail)
  refine extent_iff.mpr ⟨tail, by simp, ?_, ?_⟩
  · apply ends.of_escaped_iff
    intro close start
    rcases List.head?_eq_some_iff.mp start with ⟨more, rfl⟩
    have ahead : right ++ [close] <+: right ++ close :: more := by simp
    rw [(apart.mono List.suffix_rfl ahead).escaped_iff, ← List.append_assoc,
      (Apart.lineBreak_behind lineBreak left _).escaped_iff]
  · exact unended.of_append_left.append ((Unended.of_escape
      (List.mem_cons_of_mem _ lineBreak)).append
      (unended.of_append_right apartRight))

/-! ## Values -/

private theorem unescape_insert {left right piece : List Char}
    (apart : Apart left right) (lineBreak : piece ∈ lineBreaks) :
    unescape ((left ++ (piece ++ right)).rdropWhile isTrailing) =
      unescape ((left ++ right).rdropWhile isTrailing) := by
  have unseen : ∀ text, unescape (piece ++ text) = unescape text := by
    rcases mem_lineBreaks_iff.mp lineBreak with rfl | rfl <;> simp [unescape]
  have trailing : piece.rdropWhile isTrailing = [] := by
    rcases mem_lineBreaks_iff.mp lineBreak with rfl | rfl <;> decide
  rw [rdropWhile_append, rdropWhile_append _ piece, rdropWhile_append _ left]
  by_cases empty : right.rdropWhile isTrailing = []
  · simp [empty, trailing]
  · have shown := apart.mono List.suffix_rfl (List.rdropWhile_prefix isTrailing
      (l := right))
    rw [if_neg empty, if_neg empty, if_neg (by simp [empty]),
      unescape_append (.lineBreak_ahead lineBreak _ _), unseen,
      unescape_append shown]

/-! ## Values in other surroundings -/

namespace Indent

theorem split {left right : List Char} (indent : Indent (left ++ right))
    (apart : Apart left right) : Indent left ∧ Indent right := by
  generalize same : left ++ right = whole at indent
  induction indent generalizing left with
  | nothing =>
      rcases List.append_eq_nil_iff.mp same with ⟨rfl, rfl⟩
      exact ⟨.nothing, .nothing⟩
  | @blank character text blank inline more induction =>
      cases left with
      | nil =>
          rw [List.nil_append] at same
          rw [same]
          exact ⟨.nothing, .blank blank inline more⟩
      | cons head left =>
          cases same
          have behind := apart.mono (List.suffix_cons character left)
            List.prefix_rfl
          rcases induction behind rfl with ⟨first, second⟩
          exact ⟨.blank blank inline first, second⟩
  | @lineBreak piece text lineBreak more induction =>
      by_cases begun : left = []
      · subst begun
        rw [List.nil_append] at same
        rw [same]
        exact ⟨.nothing, .lineBreak lineBreak more⟩
      · have found : piece <+: left ++ right := ⟨text, same.symm⟩
        rcases apart.prefix_left (List.mem_cons_of_mem _ lineBreak) begun found
          with ⟨rest, rfl⟩
        rw [List.append_assoc, List.append_right_inj] at same
        have behind := apart.mono (List.suffix_append piece rest)
          List.prefix_rfl
        rcases induction behind same with ⟨first, second⟩
        exact ⟨.lineBreak lineBreak first, second⟩

theorem append {left right : List Char} (first : Indent left)
    (second : Indent right) : Indent (left ++ right) := by
  induction first with
  | nothing => exact second
  | blank blank inline _ induction => exact .blank blank inline induction
  | lineBreak lineBreak _ induction =>
      rw [List.append_assoc]
      exact .lineBreak lineBreak induction

private theorem of_mem {piece : List Char} (lineBreak : piece ∈ lineBreaks) :
    Indent piece := by
  have single := Indent.lineBreak lineBreak .nothing
  rwa [List.append_nil] at single

end Indent

private def Unindented (text : List Char) : Prop :=
  ∀ more, Indent more → more <+: text → more = []

private theorem ne_nil_of_mem_lineBreaks {piece : List Char}
    (lineBreak : piece ∈ lineBreaks) : piece ≠ [] := by
  rintro rfl
  simp [lineBreaks] at lineBreak

namespace Unindented

private theorem of_apart {left right other : List Char}
    (unindented : Unindented (left ++ right)) (nonempty : left ≠ [])
    (apart : Apart left other) : Unindented (left ++ other) := by
  intro more indent found
  cases indent with
  | nothing => rfl
  | @blank character text blank inline more =>
      rcases List.exists_cons_of_ne_nil nonempty with ⟨head, left, rfl⟩
      have first := (List.cons_prefix_cons.mp found).1
      have single : [character] <+: head :: left ++ right := by simp [first]
      cases unindented _ (.blank blank inline .nothing) single
  | @lineBreak piece text lineBreak more =>
      have begins := (List.prefix_append piece text).trans found
      have inside := apart.prefix_left (List.mem_cons_of_mem _ lineBreak)
        nonempty begins
      exact absurd (unindented piece (.of_mem lineBreak)
        (inside.trans (List.prefix_append left right)))
        (ne_nil_of_mem_lineBreaks lineBreak)

private theorem of_ends {tail rest : List Char} (ends : ValueEnd [] tail rest) :
    Unindented tail := by
  intro more indent found
  cases indent with
  | nothing => rfl
  | @blank character text blank inline more =>
      rcases found with ⟨behind, rfl⟩
      rcases ends.not_escaped.1 with rfl | rfl
      · exact absurd rfl inline
      · cases blank
  | @lineBreak piece text lineBreak more =>
      rcases found with ⟨behind, rfl⟩
      rcases mem_lineBreaks_iff.mp lineBreak with rfl | rfl <;> simp at ends <;>
        cases ends.not_escaped.1 <;> contradiction

end Unindented

private theorem ValueEnd.exists_close {body tail rest : List Char}
    (ends : ValueEnd body tail rest) (more : rest ≠ []) :
    ∃ close, tail = close ++ rest ∧
      ∀ other, ValueEnd body (close ++ other) other := by
  cases ends with
  | final => exact absurd rfl more
  | newline bare => exact ⟨['\n'], rfl, fun _ => .newline bare⟩
  | @comment line behind _ bare inline close =>
      cases close with
      | final => exact absurd rfl more
      | newline =>
          refine ⟨'#' :: (line ++ ['\n']), by simp, fun other => ?_⟩
          have newline : LineEnd ('\n' :: other) other := .newline
          simpa using ValueEnd.comment bare inline newline

private theorem Value.replace {text value rest : List Char}
    (reads : Value (text ++ rest) value rest) (more : rest ≠ [])
    (other : List Char) : Value (text ++ other) value other := by
  generalize same : text ++ rest = whole at reads
  rcases reads with ⟨indent, furthest, extent⟩
  rename_i front whole body
  rcases extent_iff.mp extent with ⟨tail, rfl, ends, unended⟩
  rcases ends.exists_close more with ⟨close, rfl, closes⟩
  have parts : text = front ++ (body ++ close) := by
    apply (List.append_left_inj rest).mp
    simpa using same
  have unindented : Unindented (body ++ (close ++ other)) := by
    by_cases empty : body = []
    · rw [empty, List.nil_append]
      have ends := closes other
      rw [empty] at ends
      exact .of_ends ends
    · exact Unindented.of_apart furthest empty (closes other).apart
  have extent : Extent (body ++ (close ++ other)) body other :=
    extent_iff.mpr ⟨_, rfl, closes other, unended⟩
  have reads := Value.indented indent unindented extent
  rw [parts, List.append_assoc, List.append_assoc]
  exact reads

/-- `WithinValue inside back`: behind a separator, the place between the texts
is in front of the value, in it, or where it ends. -/
inductive WithinValue (inside back : List Char) : Prop
  | intro (indent : Indent front)
      (furthest : ∀ more, Indent more → more <+: text → more = [])
      (extent : Extent text body rest) (parts : front ++ text = inside ++ back)
      (reached : inside <+: front ++ body)

private theorem Value.insert_indent
    {left right text body rest piece : List Char}
    (indent : Indent (left ++ right)) (unindented : Unindented text)
    (extent : Extent text body rest) (apart : Apart left right)
    (lineBreak : piece ∈ lineBreaks) :
    Value (left ++ (piece ++ (right ++ text)))
      (unescape (body.rdropWhile isTrailing)) rest := by
  rcases indent.split apart with ⟨first, second⟩
  have longer := first.append (.lineBreak lineBreak second)
  have reads := Value.indented longer unindented extent
  rw [List.append_assoc, List.append_assoc] at reads
  exact reads

private theorem Value.insert_body {front left right tail rest piece : List Char}
    (indent : Indent front) (nonempty : left ≠ [])
    (unindented : Unindented (left ++ (right ++ tail)))
    (extent : Extent (left ++ (right ++ tail)) (left ++ right) rest)
    (apart : Apart left (right ++ tail)) (lineBreak : piece ∈ lineBreaks) :
    Value (front ++ (left ++ (piece ++ (right ++ tail))))
      (unescape ((left ++ right).rdropWhile isTrailing)) rest := by
  have ahead := Apart.lineBreak_ahead lineBreak left (right ++ tail)
  have shown := apart.mono List.suffix_rfl (List.prefix_append right tail)
  rw [← unescape_insert shown lineBreak]
  exact .indented indent (unindented.of_apart nonempty ahead)
    (extent.insert apart lineBreak)

theorem WithinValue.insert {inside back piece : List Char}
    (within : WithinValue inside back) (apart : Apart inside back)
    (lineBreak : piece ∈ lineBreaks) :
    ∃ value rest, Value (inside ++ back) value rest ∧
      Value (inside ++ (piece ++ back)) value rest := by
  rcases within with ⟨indent, furthest, extent, parts, reached⟩
  rename_i front text body rest
  have value := Value.indented indent furthest extent
  rw [parts] at value
  refine ⟨_, rest, value, ?_⟩
  rcases List.append_eq_append_iff.mp parts with
    ⟨left, rfl, rfl⟩ | ⟨right, rfl, rfl⟩
  · by_cases empty : left = []
    · subst empty
      rw [List.append_nil] at apart ⊢
      have whole : Indent (front ++ []) := by rwa [List.append_nil]
      exact .insert_indent whole furthest extent
        (apart.mono List.suffix_rfl List.nil_prefix) lineBreak
    · rcases (List.prefix_append_right_inj front).mp reached with ⟨right, rfl⟩
      rcases extent_iff.mp extent with ⟨tail, behind, _, _⟩
      rw [List.append_assoc, List.append_right_inj] at behind
      subst behind
      rw [List.append_assoc]
      exact .insert_body indent empty furthest extent
        (apart.mono (List.suffix_append ..) List.prefix_rfl) lineBreak
  · exact .insert_indent indent furthest extent
      (apart.mono List.suffix_rfl (List.prefix_append right text)) lineBreak

/-! ## Files -/

/-- `InValue front back`: the place between the texts is in the value of one of
the entries of a file. -/
inductive InValue : List Char → List Char → Prop
  | here (begins : Begins (label ++ [EntryKind.separator kind]))
      (plain : Unseparated label) (within : WithinValue inside back) :
      InValue (label ++ kind.separator :: inside) back
  | blank (blank : isBlank character = true) (more : InValue front back) :
      InValue (character :: front) back
  | comment (inline : '\n' ∉ line) (more : InValue front back) :
      InValue ('#' :: (line ++ '\n' :: front)) back
  | ignored (begins : Begins (line ++ ['\n'])) (plain : Unseparated line)
      (more : InValue front back) : InValue (line ++ '\n' :: front) back
  | entry (begins : Begins (label ++ [EntryKind.separator kind]))
      (plain : Unseparated label)
      (reads : Value (text ++ (front ++ back)) value (front ++ back))
      (more : InValue front back) :
      InValue (label ++ kind.separator :: (text ++ front)) back

theorem Begins.append {text : List Char} (begins : Begins text)
    (more : List Char) : Begins (text ++ more) := by
  rcases begins with ⟨character, rest, rfl, visible, different⟩
  exact ⟨character, rest ++ more, rfl, visible, different⟩

theorem Begins.separated {label : List Char} {kind : EntryKind}
    (begins : Begins (label ++ [kind.separator])) (text : List Char) :
    Begins (label ++ kind.separator :: text) := by
  rw [List.append_cons]
  exact begins.append text

private theorem InValue.ne_nil {front back : List Char}
    (inside : InValue front back) : front ≠ [] := by
  cases inside <;> simp

private theorem readEntries_congr {text other : List Char}
    {entry : Option Entry}
    {rest behind : List Char} (read : readEntry text = (entry, rest))
    (reread : readEntry other = (entry, behind))
    (same : readEntries rest = readEntries behind) :
    readEntries text = readEntries other := by
  rw [readEntries_eq text, readEntries_eq other, read, reread, same]

private theorem InValue.readEntries_insert {front back piece : List Char}
    (inside : InValue front back) (apart : Apart front back)
    (lineBreak : piece ∈ lineBreaks) :
    readEntries (front ++ (piece ++ back)) = readEntries (front ++ back) := by
  -- Lines in front of the entry are read as before and leave what is changed
  -- to the rest of the reading.
  induction inside with
  | @here label kind inside back begins plain within =>
      have behind : inside <:+ label ++ kind.separator :: inside :=
        (List.suffix_cons _ _).trans (List.suffix_append _ _)
      rcases within.insert (apart.mono behind List.prefix_rfl) lineBreak with
        ⟨value, rest, before, after⟩
      have read := readEntry_entry (begins.separated _) plain before
      have reread := readEntry_entry (begins.separated _) plain after
      simpa using readEntries_congr reread read rfl
  | @blank character front back blank more induction =>
      have same := induction (apart.mono (List.suffix_cons _ _) List.prefix_rfl)
      have skipped := fun text => readEntry_blank blank text
      simpa [readEntries_eq (_ :: _), skipped, ← readEntries_eq] using same
  | @comment line front back inline more induction =>
      have behind : front <:+ '#' :: (line ++ '\n' :: front) :=
        ⟨'#' :: (line ++ ['\n']), by simp⟩
      have same := induction (apart.mono behind List.prefix_rfl)
      have read : ∀ text, readEntry ('#' :: (line ++ '\n' :: text)) =
          (none, text) := fun text => readEntry_comment inline .newline
      simpa using readEntries_congr (read _) (read _) same
  | @ignored line front back begins plain more induction =>
      have behind : front <:+ line ++ '\n' :: front :=
        ⟨line ++ ['\n'], by simp⟩
      have same := induction (apart.mono behind List.prefix_rfl)
      have read : ∀ text, readEntry (line ++ '\n' :: text) = (none, text) := by
        intro text
        apply readEntry_ignored _ plain .newline
        rw [List.append_cons]
        exact begins.append text
      simpa using readEntries_congr (read _) (read _) same
  | @entry label kind text front back value begins plain reads more induction =>
      have behind : front <:+ label ++ kind.separator :: (text ++ front) :=
        ⟨label ++ kind.separator :: text, by simp⟩
      have same := induction (apart.mono behind List.prefix_rfl)
      have follows : front ++ back ≠ [] :=
        List.append_ne_nil_of_left_ne_nil more.ne_nil back
      have read := readEntry_entry (begins.separated _) plain reads
      have reread := readEntry_entry (begins.separated _) plain
        (reads.replace follows (front ++ (piece ++ back)))
      simpa using readEntries_congr reread read same

/-- An escaped line break is not seen in the value of an entry, unless it is put
behind a backslash or into another escaped line break. -/
theorem parse_lineBreak_inserted {front back : String} {piece : List Char}
    (inside : InValue front.toList back.toList)
    (bare : front.toList.getLast? ≠ some '\\')
    (whole : ¬ (['\\', '\r'] <:+ front.toList ∧
      back.toList.head? = some '\n'))
    (lineBreak : piece ∈ lineBreaks) (path : String) :
    parse (front ++ String.ofList piece ++ back) path =
      parse (front ++ back) path := by
  have apart := Apart.of_unbroken bare whole
  have same := inside.readEntries_insert apart lineBreak
  unfold parse
  simp only [String.toList_append, String.toList_ofList, List.append_assoc,
    same]

/-- Behind an escaped hash sign, in the last but one line of a file. -/
theorem parse_lineBreak_inserted_hash :
    parse ("# n=\nn = 1\\#\\\n # c\nName: a\\#" ++
        String.ofList ['\\', '\r', '\n'] ++ " \\\nb # d\nURL: u\n") "a.pc" =
      parse ("# n=\nn = 1\\#\\\n # c\nName: a\\#" ++
        " \\\nb # d\nURL: u\n") "a.pc" := by
  have extent : Extent "a\\# \\\nb # d\nURL: u\n".toList
      "a\\# \\\nb ".toList "URL: u\n".toList := by
    apply Extent.literal (by decide) (by decide)
    apply @Extent.escape ['\\', '#'] _ _ _ (by decide)
    apply Extent.literal (by decide) (by decide)
    apply @Extent.escape ['\\', '\n'] _ _ _ (by decide)
    apply Extent.literal (by decide) (by decide)
    apply Extent.literal (by decide) (by decide)
    apply Extent.here
    apply @ValueEnd.comment _ " d".toList _ _ (not_escaped_nil _) (by decide)
    exact .newline
  have within : WithinValue " a\\#".toList " \\\nb # d\nURL: u\n".toList :=
    @WithinValue.intro _ _ [' '] _ _ _ (.blank rfl (by decide) .nothing)
      (fun _ => skipBlanks_furthest "a\\# \\\nb # d\nURL: u\n".toList)
      extent rfl (by decide)
  have last : InValue ("Name".toList ++ EntryKind.field.separator ::
      " a\\#".toList) " \\\nb # d\nURL: u\n".toList :=
    .here ⟨'N', _, rfl, rfl, by decide⟩ (by decide) within
  have first : InValue ("n ".toList ++ EntryKind.variable.separator ::
      (" 1\\#\\\n # c\n".toList ++ "Name: a\\#".toList)) _ :=
    .entry ⟨'n', _, rfl, rfl, by decide⟩ (by decide) (value_iff.mpr rfl) last
  have inside : InValue ('#' :: (" n=".toList ++ '\n' ::
      "n = 1\\#\\\n # c\nName: a\\#".toList)) _ :=
    .comment (by decide) first
  apply parse_lineBreak_inserted
  · exact inside
  · decide
  · decide
  · decide

end PkgConfig.Metadata
