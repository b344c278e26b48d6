import PkgConfig.Proofs.Survivors

namespace PkgConfig

/-! Printed arguments can be read back. In an argument everything that a shell
would act on stands behind a backslash, and no backslash stands alone; so a
reader finds the ends of the arguments, and what was in front of the
escaping. -/

namespace Text

/-! ## Readers -/

structure Letter where
  character : Char
  escaped : Bool
  deriving DecidableEq, Repr

def letters : List Char → List Letter
  | [] => []
  | '\\' :: character :: rest => ⟨character, true⟩ :: letters rest
  | character :: rest => ⟨character, false⟩ :: letters rest

def unescape (text : List Char) : List Char :=
  (letters text).map Letter.character

/-- The arguments of a line: it is split at the delimiters that are not escaped,
and the escapes are taken out. -/
def readBack (delimiter : Char) (line : List Char) : List (List Char) :=
  if line.isEmpty then []
  else
    ((letters line).splitOnP fun letter =>
      !letter.escaped && letter.character == delimiter).map
        (·.map Letter.character)

example : readBack ' ' "-Imy\\ dir -Da\\\\".toList =
    ["-Imy dir".toList, "-Da\\".toList] := by decide

def Letter.spelled (letter : Letter) : List Char :=
  if letter.escaped then ['\\', letter.character] else [letter.character]

theorem flatMap_spelled_letters (text : List Char) :
    (letters text).flatMap Letter.spelled = text := by
  fun_induction letters text with
  | case1 => rfl
  | case2 character rest induction => simp [Letter.spelled, induction]
  | case3 character rest _ induction => simp [Letter.spelled, induction]

/-! ## Escaped texts -/

/-- What a shell would act on stands behind a backslash, backslashes
included. -/
inductive Escaped : List Char → Prop
  | nil : Escaped []
  | behind {character : Char} {rest : List Char} (escaped : Escaped rest) :
      Escaped ('\\' :: character :: rest)
  | plain {character : Char} {rest : List Char}
      (visible : isBlank character = false)
      (literal : isShellMeta character = false) (escaped : Escaped rest) :
      Escaped (character :: rest)

namespace Escaped

theorem append {left right : List Char} (first : Escaped left)
    (second : Escaped right) : Escaped (left ++ right) := by
  induction first with
  | nil => exact second
  | behind _ induction => exact .behind induction
  | plain visible literal _ induction => exact .plain visible literal induction

theorem letters_plain {character : Char} (rest : List Char)
    (unescaping : character ≠ '\\') :
    letters (character :: rest) = ⟨character, false⟩ :: letters rest := by
  rw [letters]
  intro next tail escape
  exact absurd escape unescaping

private theorem ne_backslash {character : Char}
    (literal : isShellMeta character = false) : character ≠ '\\' := by
  rintro rfl
  cases literal

theorem letters_append {word : List Char} (escaped : Escaped word)
    (rest : List Char) : letters (word ++ rest) = letters word ++ letters rest := by
  induction escaped with
  | nil => rfl
  | behind _ induction => simp [letters, induction]
  | plain _ literal _ induction =>
      have other := ne_backslash literal
      simp [letters_plain _ other, induction]

private theorem escaped_of_mem_letters {word : List Char}
    (escaped : Escaped word) {letter : Letter} (member : letter ∈ letters word)
    (acts : isBlank letter.character = true ∨
      isShellMeta letter.character = true) : letter.escaped = true := by
  induction escaped with
  | nil => cases member
  | behind _ induction =>
      rw [letters, List.mem_cons] at member
      rcases member with rfl | member
      · rfl
      · exact induction member
  | plain visible literal _ induction =>
      rw [letters_plain _ (ne_backslash literal), List.mem_cons] at member
      rcases member with rfl | member
      · rcases acts with blank | acting
        · rw [visible] at blank
          cases blank
        · rw [literal] at acting
          cases acting
      · exact induction member

end Escaped

/-! ## Words -/

theorem Escaped.escapeOnto {word : List Char} (escaped : Escaped word.reverse)
    (character : Char) :
    Escaped (Word.escapeOnto word (Glyph.shown character)).reverse := by
  unfold Word.escapeOnto
  split
  · rw [List.reverse_cons, List.reverse_cons, List.append_assoc]
    exact escaped.append (.behind .nil)
  next quiet =>
    rw [Bool.not_eq_true, Bool.or_eq_false_iff] at quiet
    rw [List.reverse_cons]
    refine escaped.append (.plain ?_ quiet.2 .nil)
    have visible := quiet.1
    rw [Glyph.shown_beq_space] at visible
    rw [Glyph.shown, visible]
    exact visible

private theorem Word.escaped_scan (quote : Option Char) (word text : List Char)
    (escaped : Escaped word.reverse) :
    Escaped (scan quote word text).escaped := by
  fun_induction scan quote word text with
  | case1 => exact escaped
  | case2 _ _ _ _ guarded _ induction =>
      apply induction
      rw [List.reverse_cons, List.reverse_cons, List.append_assoc]
      exact escaped.append (.behind .nil)
  | case3 _ _ _ _ _ _ _ induction => exact induction escaped
  | case4 _ _ _ _ _ _ _ induction => exact induction (escaped.escapeOnto _)
  | case5 _ _ _ _ _ _ induction => exact induction escaped
  | case6 => exact escaped
  | case7 _ _ _ _ _ _ _ induction => exact induction (escaped.escapeOnto _)

private theorem escaped_of_mem_words {text : List Char} {argument : String}
    (member : argument ∈ words text) :
    argument.toList ≠ [] ∧ Escaped argument.toList := by
  fun_induction words text with
  | case1 => cases member
  | case2 _ _ _ _ induction => exact induction member
  | case3 text _ word written induction =>
      rcases List.mem_cons.mp member with rfl | member
      · rw [String.toList_ofList]
        refine ⟨?_, Word.escaped_scan none [] _ .nil⟩
        simpa using written
      · exact induction member

/-! ## Lines -/

private theorem splitOnP_letters {delimiter : Char}
    (blank : isBlank delimiter = true) {first : List Char}
    {rest : List (List Char)}
    (escaped : ∀ word ∈ first :: rest, Escaped word) :
    (letters (first ++ rest.flatMap (delimiter :: ·))).splitOnP
        (fun letter => !letter.escaped && letter.character == delimiter) =
      (first :: rest).map letters := by
  have inside : ∀ word, Escaped word → ∀ letter ∈ letters word,
      (!letter.escaped && letter.character == delimiter) = false := by
    intro word escapes letter member
    cases same : letter.character == delimiter with
    | false => exact Bool.and_false _
    | true =>
        have acts : isBlank letter.character = true := by
          rw [beq_iff_eq.mp same]
          exact blank
        rw [escapes.escaped_of_mem_letters member (.inl acts)]
        rfl
  induction rest generalizing first with
  | nil =>
      rw [List.flatMap_nil, List.append_nil]
      exact List.splitOnP_eq_singleton
        (inside first (escaped first (List.mem_singleton_self _)))
  | cons next rest induction =>
      rcases List.forall_mem_cons.mp escaped with ⟨escapes, escaped⟩
      have other : delimiter ≠ '\\' := by
        rintro rfl
        cases blank
      rw [List.flatMap_cons, List.cons_append, escapes.letters_append,
        Escaped.letters_plain _ other,
        List.splitOnP_append_cons_of_forall_mem (inside first escapes) _
          (by simp),
        induction escaped]
      rfl

private theorem readBack_join {delimiter : Char}
    (blank : isBlank delimiter = true)
    {first : List Char} {rest : List (List Char)} (written : first ≠ [])
    (escaped : ∀ word ∈ first :: rest, Escaped word) :
    readBack delimiter (first ++ rest.flatMap (delimiter :: ·)) =
      (first :: rest).map unescape := by
  rw [readBack, splitOnP_letters blank escaped, List.map_map]
  simp only [List.isEmpty_iff, List.append_eq_nil_iff, written, false_and,
    if_false]
  rfl

end Text

/-! ## Lists -/

namespace ArgumentList

/-- A list that has been filled from fields, whatever was excluded from it. A
field that could not be read to its end leaves the words in front of the
fault. -/
inductive Filled : ArgumentList → Prop
  | empty : Filled .empty
  | exclude {list : ArgumentList} (filled : Filled list) (argument : String) :
      Filled (list.exclude argument)
  | appended {list result : ArgumentList} {package : Package} {field : Field}
      {filter : Filter} {before after : Ledger} (filled : Filled list)
      (appended : list.appendField package field filter before =
        .ok result after) : Filled result
  | broken {list : ArgumentList} {package : Package} {field : Field}
      {filter : Filter} {words : List String} (filled : Filled list)
      (read : words <+: package.words field) :
      Filled ((words.filter filter.accepts).foldl push list)

private theorem mem_arguments_foldl_push (list : ArgumentList)
    (arguments : List String) (argument : String) :
    argument ∈ (arguments.foldl push list).arguments ↔
      argument ∈ list.arguments ∨ argument ∈ arguments := by
  induction arguments generalizing list with
  | nil => simp
  | cons first rest induction =>
      rw [List.foldl_cons, induction, push, Array.mem_push, List.mem_cons,
        or_assoc]

theorem Filled.escaped {list : ArgumentList} (filled : list.Filled) :
    ∀ argument ∈ list.arguments,
      argument.toList ≠ [] ∧ Text.Escaped argument.toList := by
  induction filled with
  | empty => simp [ArgumentList.empty]
  | exclude _ argument induction => exact induction
  | appended _ appended induction =>
      intro argument member
      rcases appendField_eq_ok appended with ⟨_, rfl, _⟩
      rcases (mem_arguments_foldl_push _ _ _).mp member with member | member
      · exact induction argument member
      · exact Text.escaped_of_mem_words (List.mem_filter.mp member).1
  | broken _ read induction =>
      intro argument member
      rcases (mem_arguments_foldl_push _ _ _).mp member with member | member
      · exact induction argument member
      · exact Text.escaped_of_mem_words
          (read.subset (List.mem_filter.mp member).1)

private theorem Filled.escaped_of_survives {list : ArgumentList}
    (filled : list.Filled) {argument : String}
    (survives : argument ∈ list.survivors) :
    argument.toList ≠ [] ∧ Text.Escaped argument.toList := by
  rcases mem_survivors_iff.mp survives with ⟨position, stands, _⟩
  exact filled.escaped argument (Array.mem_of_getElem? stands)

end ArgumentList

/-! ## Rendering -/

namespace Rendering

def addAll (rendering : Rendering) (delimiter : Char) (msvc : Bool)
    (lists : List ArgumentList) : Rendering :=
  lists.foldl (fun rendering list => rendering.add delimiter msvc list)
    rendering

private theorem addAll_eq (rendering : Rendering) (delimiter : Char)
    (msvc : Bool) (lists : List ArgumentList) :
    rendering.addAll delimiter msvc lists =
      (lists.flatMap ArgumentList.survivors).foldl
        (addArgument delimiter msvc) rendering := by
  rw [List.foldl_flatMap]
  rfl

private theorem count_foldl_addArgument (delimiter : Char) (msvc : Bool)
    (rendering : Rendering) (arguments : List String) :
    (arguments.foldl (addArgument delimiter msvc) rendering).count =
      rendering.count + arguments.length := by
  induction arguments generalizing rendering with
  | nil => rfl
  | cons argument rest induction =>
      have counted : (addArgument delimiter msvc rendering argument).count =
          rendering.count + 1 := rfl
      rw [List.foldl_cons, induction, counted, List.length_cons]
      omega

private theorem text_foldl_addArgument (delimiter : Char)
    {rendering : Rendering}
    (begun : rendering.count ≠ 0) (arguments : List String) :
    (arguments.foldl (addArgument delimiter false) rendering).text.toList =
      rendering.text.toList ++
        (arguments.map String.toList).flatMap (delimiter :: ·) := by
  induction arguments generalizing rendering with
  | nil => simp
  | cons argument rest induction =>
      rw [List.foldl_cons, induction (Nat.succ_ne_zero _)]
      simp [addArgument, begun]

end Rendering

/-- Lists that were filled from fields and rendered one after another can be read
back: the reader finds the arguments of all lists in their order, with the
escapes taken out, and they were counted. In each argument the blanks and what a
shell would act on are escaped. -/
theorem rendering_reads_back {delimiter : Char}
    (blank : Text.isBlank delimiter = true) {lists : List ArgumentList}
    (filled : ∀ list ∈ lists, list.Filled) :
    let arguments := lists.flatMap ArgumentList.survivors
    let line := Rendering.empty.addAll delimiter false lists
    Text.readBack delimiter line.text.toList =
        arguments.map (fun argument => Text.unescape argument.toList) ∧
      line.count = arguments.length ∧
      ∀ argument ∈ arguments, argument.toList ≠ [] ∧
        ∀ letter ∈ Text.letters argument.toList,
          Text.isBlank letter.character = true ∨
              Text.isShellMeta letter.character = true →
            letter.escaped = true := by
  intro arguments line
  have escaped : ∀ argument ∈ arguments,
      argument.toList ≠ [] ∧ Text.Escaped argument.toList := by
    intro argument member
    rcases List.mem_flatMap.mp member with ⟨list, listed, survives⟩
    exact (filled list listed).escaped_of_survives survives
  have rendered : line = arguments.foldl
      (Rendering.addArgument delimiter false) .empty :=
    Rendering.addAll_eq ..
  refine ⟨?_, ?_, ?_⟩
  · rw [rendered]
    cases whole : arguments with
    | nil => rfl
    | cons first rest =>
        rw [whole] at escaped
        rw [List.foldl_cons, Rendering.text_foldl_addArgument _
          (Nat.succ_ne_zero _)]
        have alone : (Rendering.addArgument delimiter false .empty
            first).text.toList = first.toList := by
          simp [Rendering.addArgument, Rendering.empty]
        have each : ∀ word ∈ first.toList :: rest.map String.toList,
            Text.Escaped word := by
          rw [← List.map_cons]
          intro word member
          rcases List.mem_map.mp member with ⟨argument, listed, rfl⟩
          exact (escaped argument listed).2
        rw [alone, Text.readBack_join blank
          (escaped first (List.mem_cons_self ..)).1 each, ← List.map_cons,
          List.map_map]
        rfl
  · rw [rendered, Rendering.count_foldl_addArgument]
    exact Nat.zero_add _
  · intro argument member
    rcases escaped argument member with ⟨written, escapes⟩
    exact ⟨written, fun letter => escapes.escaped_of_mem_letters⟩

/-! ## A field with quotes -/

namespace QuotedField

def package : Package where
  realname := "x"
  path := "/p/x.pc"
  bindings := .empty
  fields := Table.ofList [(.cflags, "-I\"my dir\" -Da'\\'")]
  marks := .named

def outcome : EStateM.Result Error Ledger ArgumentList → Option (List String)
  | .ok list _ => some list.survivors
  | .error .. => none

private theorem outcome_appendField :
    outcome (ArgumentList.empty.appendField package .cflags .any
      (.fresh 100)) = some ["-Imy\\ dir", "-Da\\\\"] := by
  let text := (package.field .cflags).toList
  have words : Text.splitWords text =
      ["-Imy\\ dir".toList, "-Da\\\\".toList] := by decide
  have closed : Text.openAtEnd none text = none := by decide
  have fits : 0 + Text.byteLength (Text.split none text).flatten ≤ 100 := by
    decide
  rcases Text.takeWords_eq_splitWords text (.fresh 100) fits with
    ⟨after, taken, _⟩
  rw [words, closed] at taken
  have printed : (["-Imy\\ dir", "-Da\\\\"].foldl ArgumentList.push
      .empty).survivors = ["-Imy\\ dir", "-Da\\\\"] :=
    ArgumentList.survivors_foldl_push (by decide)
      (by simp [ArgumentList.empty]) (by simp [ArgumentList.empty])
  simp only [ArgumentList.appendField, Text.fieldWords_eq_takeWords, bind,
    EStateM.bind, text, taken]
  exact congrArg some printed

/-- Twice the same list, on lines of their own. -/
theorem rendering_reads_back_quoted :
    Text.isBlank '\n' = true ∧ ∃ list : ArgumentList, list.Filled ∧
      (Rendering.empty.addAll '\n' false [list, list]).count = 4 ∧
      Text.readBack '\n'
          (Rendering.empty.addAll '\n' false [list, list]).text.toList =
        ["-Imy dir".toList, "-Da\\".toList, "-Imy dir".toList,
          "-Da\\".toList] := by
  have blank : Text.isBlank '\n' = true := by decide
  have seen := outcome_appendField
  cases appended : ArgumentList.empty.appendField package .cflags .any
      (.fresh 100) with
  | error error after =>
      rw [appended] at seen
      cases seen
  | ok list after =>
      simp only [appended, outcome, Option.some.injEq] at seen
      have filled : list.Filled := .appended .empty appended
      have each : ∀ other ∈ [list, list], other.Filled := by
        simpa using filled
      have arguments : [list, list].flatMap ArgumentList.survivors =
          ["-Imy\\ dir", "-Da\\\\", "-Imy\\ dir", "-Da\\\\"] := by
        simp [seen]
      rcases rendering_reads_back blank each with ⟨read, counted, _⟩
      rw [arguments] at read counted
      refine ⟨blank, list, filled, counted, ?_⟩
      rw [read]
      decide

end QuotedField

end PkgConfig
