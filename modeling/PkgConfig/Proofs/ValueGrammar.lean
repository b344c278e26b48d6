import Mathlib.Data.List.DropRight
import PkgConfig.Metadata

namespace PkgConfig.Metadata

open Text

/-! What the value of an entry is, said by the places where it begins, ends and
is cut off, and that this is what is read. -/

/-! ## The grammar of values -/

def lineBreaks : List (List Char) := [['\\', '\n'], ['\\', '\r', '\n']]

def escapes : List (List Char) := ['\\', '#'] :: lineBreaks

theorem mem_lineBreaks_iff {piece : List Char} :
    piece ∈ lineBreaks ↔ piece = ['\\', '\n'] ∨ piece = ['\\', '\r', '\n'] := by
  simp [lineBreaks]

theorem mem_escapes_iff {piece : List Char} :
    piece ∈ escapes ↔ piece = ['\\', '#'] ∨ piece = ['\\', '\n'] ∨
      piece = ['\\', '\r', '\n'] := by
  simp [escapes, lineBreaks]

inductive Indent : List Char → Prop
  | nothing : Indent []
  | blank (blank : isBlank character = true) (inline : character ≠ '\n')
      (more : Indent text) : Indent (character :: text)
  | lineBreak (lineBreak : piece ∈ lineBreaks) (more : Indent text) :
      Indent (piece ++ text)

inductive LineEnd : List Char → List Char → Prop
  | newline : LineEnd ('\n' :: rest) rest
  | final : LineEnd [] []

/-- Behind `body`, a character is part of an escape that it completes. -/
def Escaped (body : List Char) (character : Char) : Prop :=
  ∃ piece ∈ escapes, piece <:+ body ++ [character]

/-- `ValueEnd body tail rest`: behind `body`, a value may end in front of
`tail`, and what is left then is `rest`. -/
inductive ValueEnd (body : List Char) : List Char → List Char → Prop
  | final : ValueEnd body [] []
  | newline (bare : ¬ Escaped body '\n') : ValueEnd body ('\n' :: rest) rest
  | comment (bare : ¬ Escaped body '#') (inline : '\n' ∉ line)
      (close : LineEnd tail rest) : ValueEnd body ('#' :: (line ++ tail)) rest

/-- A value extends to the first place where it may end. -/
inductive Extent : List Char → List Char → List Char → Prop
  | ending (ends : ValueEnd body tail rest)
      (first : ∀ front back, front ++ back = body → back ≠ [] →
        ∀ other, ¬ ValueEnd front (back ++ tail) other) :
      Extent (body ++ tail) body rest

def unescape : List Char → List Char
  | '\\' :: '#' :: rest => '#' :: unescape rest
  | '\\' :: '\n' :: rest => unescape rest
  | '\\' :: '\r' :: '\n' :: rest => unescape rest
  | character :: rest => character :: unescape rest
  | [] => []

def isTrailing (character : Char) : Bool :=
  isBlank character || character == '\\'

/-- `Value text value rest`: the value behind a separator, and what is left. -/
inductive Value : List Char → List Char → List Char → Prop
  | indented (indent : Indent front)
      (furthest : ∀ more, Indent more → more <+: text → more = [])
      (extent : Extent text body rest) :
      Value (front ++ text) (unescape (body.rdropWhile isTrailing)) rest

/-! ## Lines -/

theorem afterLine_append {line tail rest : List Char} (inline : '\n' ∉ line)
    (close : LineEnd tail rest) : afterLine (line ++ tail) = rest := by
  have passed : ∀ character ∈ line, (character != '\n') = true := by
    intro character member
    have different : character ≠ '\n' := by
      rintro rfl
      exact inline member
    simpa using different
  rw [afterLine, List.dropWhile_append_of_pos passed]
  cases close with
  | newline => simp
  | final => rfl

theorem exists_lineEnd (text : List Char) :
    ∃ line tail, text = line ++ tail ∧ '\n' ∉ line ∧
      LineEnd tail (afterLine text) := by
  induction text with
  | nil => exact ⟨[], [], rfl, List.not_mem_nil, .final⟩
  | cons head rest induction =>
      by_cases newline : head = '\n'
      · rw [newline]
        exact ⟨[], '\n' :: rest, rfl, List.not_mem_nil, .newline⟩
      · rcases induction with ⟨line, tail, same, inline, close⟩
        refine ⟨head :: line, tail, by rw [same]; rfl, ?_, ?_⟩
        · simp [inline, Ne.symm newline]
        · have passed : afterLine (head :: rest) = afterLine rest := by
            simp [afterLine, newline]
          rw [passed]
          exact close

/-! ## In front of a value -/

private theorem skipBlanks_indent {front : List Char} (indent : Indent front)
    (text : List Char) : skipBlanks (front ++ text) = skipBlanks text := by
  induction indent with
  | nothing => rfl
  | @blank character more blank inline _ induction =>
      have plain : character ≠ '\\' := by
        rintro rfl
        cases blank
      rw [List.cons_append, skipBlanks]
      · rw [if_pos blank, induction]
      · exact fun _ same => absurd same plain
      · exact fun _ same => absurd same plain
      · exact fun same => absurd same inline
  | lineBreak lineBreak _ induction =>
      rcases mem_lineBreaks_iff.mp lineBreak with rfl | rfl
      · simpa [skipBlanks] using induction
      · simpa [skipBlanks] using induction

private theorem exists_indent (text : List Char) :
    ∃ front, Indent front ∧ text = front ++ skipBlanks text := by
  fun_induction skipBlanks text with
  | case1 rest induction =>
      rcases induction with ⟨front, indent, same⟩
      refine ⟨['\\', '\n'] ++ front, .lineBreak (by decide) indent, ?_⟩
      simpa using same
  | case2 rest induction =>
      rcases induction with ⟨front, indent, same⟩
      refine ⟨['\\', '\r', '\n'] ++ front, .lineBreak (by decide) indent, ?_⟩
      simpa using same
  | case3 => exact ⟨[], .nothing, rfl⟩
  | case4 character rest _ _ inline blank induction =>
      rcases induction with ⟨front, indent, same⟩
      refine ⟨character :: front, .blank blank inline indent, ?_⟩
      simpa using same
  | case5 => exact ⟨[], .nothing, rfl⟩
  | case6 => exact ⟨[], .nothing, rfl⟩

private theorem skipBlanks_skipBlanks (text : List Char) :
    skipBlanks (skipBlanks text) = skipBlanks text := by
  fun_induction skipBlanks text <;> simp_all [skipBlanks]

theorem skipBlanks_furthest (text : List Char) {more : List Char}
    (indent : Indent more) (found : more <+: skipBlanks text) : more = [] := by
  rcases found with ⟨rest, same⟩
  have skipped : more ++ rest = skipBlanks rest := by
    rw [← skipBlanks_indent indent, same, skipBlanks_skipBlanks]
  rcases exists_indent rest with ⟨front, _, parts⟩
  have size := congrArg List.length (skipped ▸ parts)
  simp only [List.length_append] at size
  exact List.length_eq_zero_iff.mp (by omega)

private theorem skipBlanks_eq_self {text : List Char}
    (furthest : ∀ more, Indent more → more <+: text → more = []) :
    skipBlanks text = text := by
  rcases exists_indent text with ⟨front, indent, same⟩
  have empty := furthest front indent ⟨_, same.symm⟩
  rw [empty] at same
  exact same.symm

/-! ## Where a value ends -/

theorem not_escaped_nil (character : Char) : ¬ Escaped [] character := by
  simp [Escaped, escapes, lineBreaks, List.suffix_cons_iff]

private theorem escaped_cons_iff {character close : Char} {body : List Char}
    (apart : character :: (body ++ [close]) ∉ escapes) :
    Escaped (character :: body) close ↔ Escaped body close := by
  constructor
  · rintro ⟨piece, escape, suffix⟩
    rcases List.suffix_cons_iff.mp suffix with rfl | suffix
    · exact absurd escape apart
    · exact ⟨piece, escape, suffix⟩
  · rintro ⟨piece, escape, suffix⟩
    exact ⟨piece, escape, suffix.trans (List.suffix_cons _ _)⟩

private theorem escaped_append_iff {piece : List Char}
    (escape : piece ∈ escapes) {close : Char} {body : List Char} :
    Escaped (piece ++ body) close ↔ Escaped body close := by
  rcases mem_escapes_iff.mp escape with rfl | rfl | rfl <;>
    simp [escaped_cons_iff, escapes, lineBreaks]

namespace ValueEnd

theorem of_escaped_iff {body other tail rest : List Char}
    (same : ∀ close, tail.head? = some close →
      (Escaped body close ↔ Escaped other close))
    (ends : ValueEnd body tail rest) : ValueEnd other tail rest := by
  cases ends with
  | final => exact .final
  | newline bare =>
      exact .newline fun escaped => bare ((same _ rfl).mpr escaped)
  | comment bare inline close =>
      exact .comment (fun escaped => bare ((same _ rfl).mpr escaped)) inline
        close

theorem not_escaped {body tail rest : List Char} {character : Char}
    (ends : ValueEnd body (character :: tail) rest) :
    (character = '\n' ∨ character = '#') ∧ ¬ Escaped body character := by
  cases ends with
  | newline bare => exact ⟨.inl rfl, bare⟩
  | comment bare => exact ⟨.inr rfl, bare⟩

theorem unique {body tail first second : List Char}
    (left : ValueEnd body tail first) (right : ValueEnd body tail second) :
    first = second := by
  cases left with
  | final =>
      cases right
      rfl
  | newline =>
      cases right
      rfl
  | @comment line behind _ _ inline close =>
      generalize same : line ++ behind = text at right
      cases right with
      | comment _ other closing =>
          rw [← afterLine_append inline close, same,
            afterLine_append other closing]

theorem not_inside {piece front back text rest : List Char}
    (escape : piece ∈ escapes) (parts : front ++ back = piece)
    (nonempty : back ≠ []) : ¬ ValueEnd front (back ++ text) rest := by
  intro ends
  have closing : ∀ piece ∈ escapes, ∀ character ∈ piece.dropLast,
      ¬ (character = '\n' ∨ character = '#') := by
    simp [escapes, lineBreaks]
  cases back with
  | nil => exact nonempty rfl
  | cons character more =>
      rcases ends.not_escaped with ⟨closes, bare⟩
      cases more with
      | nil => exact bare ⟨piece, escape, parts ▸ List.suffix_rfl⟩
      | cons next more =>
          apply closing piece escape character _ closes
          simp [← parts, List.dropLast_append_of_ne_nil]

end ValueEnd

namespace Extent

theorem prepend {piece text body rest : List Char}
    (inside : ∀ front back, front ++ back = piece → back ≠ [] →
      ∀ other, ¬ ValueEnd front (back ++ text) other)
    (apart : ∀ front close more, front ++ close :: more = text →
      (Escaped (piece ++ front) close ↔ Escaped front close))
    (extent : Extent text body rest) :
    Extent (piece ++ text) (piece ++ body) rest := by
  rcases extent with ⟨ends, first⟩
  rename_i tail
  rw [← List.append_assoc]
  refine .ending ?_ ?_
  · apply ends.of_escaped_iff
    intro close start
    rcases List.head?_eq_some_iff.mp start with ⟨more, rfl⟩
    exact (apart body close more rfl).symm
  · intro front back parts nonempty other earlier
    have behind : ∀ middle, piece ++ middle = front →
        middle ++ back ≠ body := by
      rintro middle rfl same
      apply first middle back same nonempty other
      apply earlier.of_escaped_iff
      intro close start
      rcases List.head?_eq_some_iff.mp start with ⟨more, starts⟩
      apply apart middle close more
      rw [← same, List.append_assoc, starts]
    rcases List.append_eq_append_iff.mp parts with
      ⟨middle, within, rfl⟩ | ⟨middle, same, parts⟩
    · cases middle with
      | nil => exact behind [] (by simp [within]) rfl
      | cons head middle =>
          rw [List.append_assoc] at earlier
          exact inside front (head :: middle) within.symm
            (List.cons_ne_nil _ _) other earlier
    · exact behind middle same.symm parts.symm

theorem within {text body rest : List Char} (extent : Extent text body rest) :
    body <+: text := by
  cases extent
  exact List.prefix_append _ _

theorem here {text rest : List Char} (ends : ValueEnd [] text rest) :
    Extent text [] rest := by
  have ending : Extent ([] ++ text) [] rest := by
    refine .ending ends ?_
    intro front back parts nonempty
    exact absurd (List.append_eq_nil_iff.mp parts).2 nonempty
  exact ending

theorem escape {piece text body rest : List Char} (escape : piece ∈ escapes)
    (extent : Extent text body rest) :
    Extent (piece ++ text) (piece ++ body) rest :=
  extent.prepend (fun _ _ parts nonempty _ =>
    ValueEnd.not_inside escape parts nonempty)
    (fun _ _ _ _ => escaped_append_iff escape)

theorem literal {character : Char} {text body rest : List Char}
    (inside : character ≠ '\n' ∧ character ≠ '#')
    (plain : ∀ piece ∈ escapes, ¬ piece <+: character :: text)
    (extent : Extent text body rest) :
    Extent (character :: text) (character :: body) rest := by
  have unended : ∀ front back, front ++ back = [character] → back ≠ [] →
      ∀ other, ¬ ValueEnd front (back ++ text) other := by
    intro front back parts nonempty other earlier
    rcases List.append_eq_singleton_iff.mp parts with ⟨rfl, rfl⟩ | ⟨_, rfl⟩
    · rcases earlier.not_escaped.1 with newline | hash
      · exact inside.1 newline
      · exact inside.2 hash
    · exact nonempty rfl
  have apart : ∀ front close more, front ++ close :: more = text →
      (Escaped ([character] ++ front) close ↔ Escaped front close) := by
    intro front close more parts
    apply escaped_cons_iff
    intro escape
    apply plain _ escape
    exact ⟨more, by simp [← parts]⟩
  exact extent.prepend unended apart

theorem unique {text first second left right : List Char}
    (one : Extent text first left) (other : Extent text second right) :
    first = second ∧ left = right := by
  rcases one with ⟨ends, earliest⟩
  rename_i tail
  generalize same : first ++ tail = text at other
  rcases other with ⟨closes, soonest⟩
  rcases List.append_eq_append_iff.mp same with
    ⟨middle, rfl, rfl⟩ | ⟨middle, rfl, rfl⟩
  · cases middle with
    | nil =>
        rw [List.append_nil] at closes
        exact ⟨(List.append_nil _).symm, ends.unique closes⟩
    | cons head middle =>
        exact absurd ends
          (soonest first (head :: middle) rfl (List.cons_ne_nil _ _) left)
  · cases middle with
    | nil =>
        rw [List.append_nil] at ends
        exact ⟨List.append_nil _, ends.unique closes⟩
    | cons head middle =>
        exact absurd closes
          (earliest second (head :: middle) rfl (List.cons_ne_nil _ _) right)

end Extent

/-! ## Reading a value -/

theorem unescape_literal {character : Char} {text : List Char}
    (plain : ∀ piece ∈ escapes, ¬ piece <+: character :: text) :
    unescape (character :: text) = character :: unescape text := by
  simp only [mem_escapes_iff, forall_eq_or_imp, forall_eq] at plain
  rcases plain with ⟨hash, newline, carriage⟩
  rw [unescape]
  · rintro more rfl rfl
    exact hash ⟨more, rfl⟩
  · rintro more rfl rfl
    exact newline ⟨more, rfl⟩
  · rintro more rfl rfl
    exact carriage ⟨more, rfl⟩

private theorem Extent.unescape_cons {character : Char}
    {text body rest : List Char} (extent : Extent text body rest)
    (plain : ∀ piece ∈ escapes, ¬ piece <+: character :: text) :
    unescape (character :: body.rdropWhile isTrailing) =
      character :: unescape (body.rdropWhile isTrailing) := by
  have longer : character :: body.rdropWhile isTrailing <+: character :: text :=
    (List.prefix_cons_inj character).mpr
      ((List.rdropWhile_prefix _ _).trans extent.within)
  exact unescape_literal fun piece escape found =>
    plain piece escape (found.trans longer)

theorem rdropWhile_append (passes : Char → Bool) (left right : List Char) :
    (left ++ right).rdropWhile passes =
      if right.rdropWhile passes = [] then left.rdropWhile passes
      else left ++ right.rdropWhile passes := by
  simp only [List.rdropWhile, List.reverse_append, List.dropWhile_append,
    List.isEmpty_iff, List.reverse_eq_nil_iff]
  split
  · rfl
  · simp

private theorem rdropWhile_cons_of_neg {passes : Char → Bool} {character : Char}
    (stops : passes character = false) (text : List Char) :
    (character :: text).rdropWhile passes =
      character :: text.rdropWhile passes := by
  rw [← List.singleton_append, rdropWhile_append]
  split
  next empty => simp [stops, empty, List.rdropWhile_singleton]
  · rfl

private theorem rdropWhile_cons_of_pos {passes : Char → Bool} {character : Char}
    (passed : passes character = true) (text : List Char) :
    (character :: text).rdropWhile passes =
      if text.rdropWhile passes = [] then []
      else character :: text.rdropWhile passes := by
  rw [← List.singleton_append, rdropWhile_append, List.rdropWhile_singleton,
    if_pos passed]
  rfl

def settle (kept held shown : List Char) : List Char :=
  if shown = [] then kept.reverse
  else kept.reverse ++ (held.reverse ++ unescape shown)

private theorem settle_kept (kept held shown : List Char) (character : Char) :
    settle (character :: held ++ kept) [] shown =
      kept.reverse ++ (held.reverse ++ character :: unescape shown) := by
  unfold settle
  split
  next empty => simp [empty, unescape]
  · simp

private theorem settle_visible {kept held body : List Char} {character : Char}
    (visible : isTrailing character = false)
    (literal : unescape (character :: body.rdropWhile isTrailing) =
      character :: unescape (body.rdropWhile isTrailing)) :
    settle kept held ((character :: body).rdropWhile isTrailing) =
      settle (character :: held ++ kept) [] (body.rdropWhile isTrailing) := by
  rw [settle_kept, rdropWhile_cons_of_neg visible, settle,
    if_neg (List.cons_ne_nil _ _), literal]

private theorem settle_trailing {kept held body : List Char} {character : Char}
    (trailing : isTrailing character = true)
    (literal : unescape (character :: body.rdropWhile isTrailing) =
      character :: unescape (body.rdropWhile isTrailing)) :
    settle kept held ((character :: body).rdropWhile isTrailing) =
      settle kept (character :: held) (body.rdropWhile isTrailing) := by
  rw [rdropWhile_cons_of_pos trailing]
  by_cases empty : body.rdropWhile isTrailing = []
  · rw [if_pos empty, empty]
    rfl
  · rw [if_neg empty, settle, if_neg (List.cons_ne_nil _ _), literal, settle,
      if_neg empty]
    simp

private theorem settle_hash (kept held body : List Char) :
    settle kept held ((['\\', '#'] ++ body).rdropWhile isTrailing) =
      settle ('#' :: held ++ kept) [] (body.rdropWhile isTrailing) := by
  simp only [List.cons_append, List.nil_append]
  rw [rdropWhile_cons_of_pos (by decide), rdropWhile_cons_of_neg (by decide),
    if_neg (List.cons_ne_nil _ _), settle, if_neg (List.cons_ne_nil _ _)]
  exact (settle_kept kept held _ '#').symm

private theorem settle_lineBreak {piece : List Char}
    (lineBreak : piece ∈ lineBreaks) (kept held body : List Char) :
    settle kept held ((piece ++ body).rdropWhile isTrailing) =
      settle kept held (body.rdropWhile isTrailing) := by
  have backslash : isTrailing '\\' = true := by decide
  have newline : isTrailing '\n' = true := by decide
  have carriage : isTrailing '\r' = true := by decide
  rcases mem_lineBreaks_iff.mp lineBreak with rfl | rfl <;>
    by_cases empty : body.rdropWhile isTrailing = [] <;>
    simp [rdropWhile_cons_of_pos, backslash, newline, carriage, settle, empty,
      unescape]

private theorem not_escape_of_ne {character : Char}
    (different : character ≠ '\\')
    (text : List Char) : ∀ piece ∈ escapes, ¬ piece <+: character :: text := by
  simp [escapes, lineBreaks, Ne.symm different]

private theorem exists_extent (kept held text : List Char) :
    ∃ body rest, Extent text body rest ∧
      readValue kept held text =
        (settle kept held (body.rdropWhile isTrailing), rest) := by
  fun_induction readValue kept held text with
  | case1 kept held => exact ⟨[], [], .here .final, rfl⟩
  | case2 kept held rest =>
      exact ⟨[], rest, .here (.newline (not_escaped_nil _)), rfl⟩
  | case3 kept held rest =>
      rcases exists_lineEnd rest with ⟨line, tail, same, inline, close⟩
      refine ⟨[], afterLine rest, .here ?_, rfl⟩
      have ends := ValueEnd.comment (not_escaped_nil _) inline close
      rw [← same] at ends
      exact ends
  | case4 kept held rest induction =>
      rcases induction with ⟨body, left, extent, read⟩
      have escape : ['\\', '#'] ∈ escapes := by decide
      refine ⟨_, left, extent.escape escape, ?_⟩
      rw [read, settle_hash]
  | case5 kept held rest induction =>
      rcases induction with ⟨body, left, extent, read⟩
      have lineBreak : ['\\', '\n'] ∈ lineBreaks := by decide
      refine ⟨_, left, extent.escape (List.mem_cons_of_mem _ lineBreak), ?_⟩
      rw [read, settle_lineBreak lineBreak]
  | case6 kept held rest induction =>
      rcases induction with ⟨body, left, extent, read⟩
      have lineBreak : ['\\', '\r', '\n'] ∈ lineBreaks := by decide
      refine ⟨_, left, extent.escape (List.mem_cons_of_mem _ lineBreak), ?_⟩
      rw [read, settle_lineBreak lineBreak]
  | case7 kept held rest hash newline carriage induction =>
      rcases induction with ⟨body, left, extent, read⟩
      have plain : ∀ piece ∈ escapes, ¬ piece <+: '\\' :: rest := by
        simp only [mem_escapes_iff, forall_eq_or_imp, forall_eq]
        refine ⟨?_, ?_, ?_⟩
        · rintro ⟨more, same⟩
          exact hash more (List.cons.inj same).2.symm
        · rintro ⟨more, same⟩
          exact newline more (List.cons.inj same).2.symm
        · rintro ⟨more, same⟩
          exact carriage more (List.cons.inj same).2.symm
      refine ⟨'\\' :: body, left, extent.literal (by decide) plain, ?_⟩
      rw [read, settle_trailing (by decide) (extent.unescape_cons plain)]
  | case8 kept held character rest newline hash _ _ _ different blank
      induction =>
      rcases induction with ⟨body, left, extent, read⟩
      have plain := not_escape_of_ne different rest
      have trailing : isTrailing character = true := by simp [isTrailing, blank]
      refine ⟨character :: body, left, extent.literal ⟨newline, hash⟩ plain, ?_⟩
      rw [read, settle_trailing trailing (extent.unescape_cons plain)]
  | case9 kept held character rest newline hash _ _ _ different blank
      induction =>
      rcases induction with ⟨body, left, extent, read⟩
      have plain := not_escape_of_ne different rest
      have visible : isTrailing character = false := by
        simpa [isTrailing, blank] using different
      refine ⟨character :: body, left, extent.literal ⟨newline, hash⟩ plain, ?_⟩
      rw [read, settle_visible visible (extent.unescape_cons plain)]

private theorem settle_nil (shown : List Char) :
    settle [] [] shown = unescape shown := by
  unfold settle
  split
  next empty => simp [empty, unescape]
  · simp

/-- What is read behind a separator is the value there. -/
theorem value_iff {text value rest : List Char} :
    Value text value rest ↔
      readValue [] [] (skipBlanks text) = (value, rest) := by
  constructor
  · rintro ⟨indent, furthest, extent⟩
    rename_i front text body
    rcases exists_extent [] [] text with ⟨other, left, found, read⟩
    rcases extent.unique found with ⟨rfl, rfl⟩
    rw [skipBlanks_indent indent, skipBlanks_eq_self furthest, read, settle_nil]
  · intro read
    rcases exists_indent text with ⟨front, indent, parts⟩
    rcases exists_extent [] [] (skipBlanks text) with ⟨body, left, extent, same⟩
    rw [same, settle_nil] at read
    cases read
    have value := Value.indented indent
      (fun _ => skipBlanks_furthest text) extent
    rw [← parts] at value
    exact value

example : Value " a\\\r\n b \\#c \\ # d\ne".toList "a b #c".toList "e".toList :=
  value_iff.mpr (by decide)

end PkgConfig.Metadata
