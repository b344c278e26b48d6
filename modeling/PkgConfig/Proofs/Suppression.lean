import PkgConfig.Proofs.Evaluation
import PkgConfig.Proofs.Filtering
import PkgConfig.Proofs.ReadingBack

namespace PkgConfig

/-! System directories as they are read back. The flag of a system directory is
left out by its spelling. Every argument that reads as this flag is spelled like
it, as long as the directory has no dollar signs and no parentheses: these stand
behind a backslash where they were encoded, and are left as they are where a
field just quotes them. -/

namespace Text

/-! ## Letters of words -/

def substituting : List Char := ['$', '(', ')']

/-- A letter as words have it. A backslash stands in front of what a shell would
act on, and of what was encoded. -/
structure Letter.Sound (letter : Letter) : Prop where
  guarded : letter.escaped = true → isGuarded letter.character = true
  literal : letter.escaped = false →
    isBlank letter.character = false ∧
      isShellMeta letter.character = false ∧
      original? letter.character = none

private theorem letters_flatMap {α : Type} {write : α → List Char}
    {items : List α} (escaped : ∀ item ∈ items, Escaped (write item)) :
    letters (items.flatMap write) =
      items.flatMap fun item => letters (write item) := by
  induction items with
  | nil => rfl
  | cons item rest induction =>
      rcases List.forall_mem_cons.mp escaped with ⟨first, escaped⟩
      rw [List.flatMap_cons, first.letters_append, induction escaped,
        List.flatMap_cons]

theorem unescape_flatMap {write : Char → List Char} {read : Char → Char}
    {text : List Char} (escaped : ∀ character ∈ text, Escaped (write character))
    (each : ∀ character ∈ text, unescape (write character) = [read character]) :
    unescape (text.flatMap write) = text.map read := by
  calc unescape (text.flatMap write) =
        text.flatMap fun character => unescape (write character) := by
        rw [unescape, letters_flatMap escaped, List.map_flatMap]
        rfl
    _ = text.flatMap fun character => [read character] := by
        rw [List.flatMap, List.flatMap, List.map_congr_left each]
    _ = text.map read := List.flatMap_pure_eq_map _ _

theorem letters_escape (character : Char) :
    letters (Glyph.escape character) =
      [⟨character, decide (character = ' ' ∨ character ∈ shellMeta)⟩] := by
  unfold Glyph.escape
  by_cases acts : character = ' ' ∨ character ∈ shellMeta
  · rw [if_pos acts, decide_eq_true acts]
    rfl
  · have other : character ≠ '\\' := by
      rintro rfl
      exact acts (.inr (by decide))
    rw [if_neg acts, decide_eq_false acts, Escaped.letters_plain _ other]
    rfl

namespace Glyph

theorem escaped_written (glyph : Glyph) : Escaped glyph.written := by
  unfold written
  split
  · exact .nil
  · split
    · exact .behind .nil
    · have begun : Escaped ([] : List Char).reverse := .nil
      have escaped := begun.escapeOnto glyph.character
      rw [escapeOnto_eq, List.append_nil, List.reverse_reverse] at escaped
      exact escaped

private theorem sound_written (glyph : Glyph) :
    ∀ letter ∈ letters glyph.written, letter.Sound := by
  intro letter member
  unfold written at member
  split at member
  · cases member
  · split at member
    next original encoded =>
      rcases List.mem_singleton.mp member with rfl
      have guards : isGuarded original = true :=
        mem_guarded_iff.mp (List.mem_of_find?_eq_some encoded)
      exact ⟨fun _ => guards, nofun⟩
    next plain =>
      rw [letters_escape, List.mem_singleton] at member
      subst member
      constructor
      · intro acts
        rcases of_decide_eq_true acts with space | acts
        · simp [space, isGuarded, isBlank, blanks]
        · simp [isGuarded, isShellMeta, acts]
      · intro quiet
        rcases not_or.mp (of_decide_eq_false quiet) with ⟨visible, literal⟩
        have unblank : isBlank glyph.character = false := by
          rw [← shown_beq_space]
          exact beq_false_of_ne visible
        have same : shown glyph.character = glyph.character := by
          simp [shown, unblank]
        rw [same] at literal ⊢
        exact ⟨unblank, by simpa [isShellMeta] using literal, plain⟩

end Glyph

private theorem sound_of_mem_split {quote : Option Char} {text word : List Char}
    (member : word ∈ split quote text) :
    ∀ letter ∈ letters word, letter.Sound := by
  intro letter listed
  rcases List.mem_map.mp member with ⟨characters, _, rfl⟩
  rw [letters_flatMap fun glyph _ => glyph.escaped_written] at listed
  rcases List.mem_flatMap.mp listed with ⟨glyph, _, listed⟩
  exact glyph.sound_written letter listed

theorem mem_split_of_mem_splitWords {text word : List Char}
    (member : word ∈ splitWords text) : word ∈ split none text := by
  have complete := (List.mem_filter.mp member).1
  unfold completeWords at complete
  split at complete
  · exact complete
  · exact List.dropLast_subset _ complete

/-! ## Shielded texts -/

theorem escaped_shield (character : Char) : Escaped (shield character) := by
  unfold shield
  split
  · exact .behind .nil
  next unguarded =>
    have plain := visible_of_unguarded (Bool.eq_false_iff.mpr unguarded)
    split
    · exact .behind .nil
    · exact .plain plain.1 plain.2.1 .nil

theorem letters_shield (character : Char) :
    letters (shield character) =
      if isGuarded character then [⟨character, true⟩]
      else
        match original? character with
        | some original => [⟨original, true⟩]
        | none => [⟨character, false⟩] := by
  unfold shield
  split
  · rfl
  next unguarded =>
    have other : character ≠ '\\' := by
      rintro rfl
      exact unguarded (by decide)
    cases original? character with
    | some original => rfl
    | none => exact Escaped.letters_plain _ other

private theorem escaped_of_mem_letters_shield {text : List Char}
    {letter : Letter} (member : letter ∈ letters (text.flatMap shield))
    (guards : isGuarded letter.character = true) : letter.escaped = true := by
  rw [letters_flatMap fun character _ => escaped_shield character] at member
  rcases List.mem_flatMap.mp member with ⟨character, _, member⟩
  rw [letters_shield] at member
  split at member
  · rw [List.mem_singleton.mp member]
  next unguarded =>
    split at member
    · rw [List.mem_singleton.mp member]
    · rw [List.mem_singleton.mp member] at guards
      exact absurd guards unguarded

private theorem Letter.Sound.spelled_eq {letter : Letter} (sound : letter.Sound)
    (plain : letter.character ∉ substituting) :
    letter.spelled = shield letter.character := by
  unfold spelled shield
  cases escaped : letter.escaped with
  | true => simp [sound.guarded escaped]
  | false =>
      rcases sound.literal escaped with ⟨visible, literal, unencoded⟩
      have unguarded : isGuarded letter.character = false := by
        rw [isGuarded, visible, literal]
        simpa [substituting] using plain
      simp [unguarded, unencoded]

private theorem eq_flatMap_shield {word : List Char}
    (sound : ∀ letter ∈ letters word, letter.Sound)
    (plain : ∀ character ∈ unescape word, character ∉ substituting) :
    word = (unescape word).flatMap shield := by
  calc word = (letters word).flatMap Letter.spelled :=
        (flatMap_spelled_letters word).symm
    _ = (letters word).flatMap fun letter => shield letter.character := by
        rw [List.flatMap, List.flatMap, List.map_congr_left]
        intro letter member
        exact (sound letter member).spelled_eq
          (plain _ (List.mem_map_of_mem member))
    _ = (unescape word).flatMap shield := (List.flatMap_map _ _ _).symm

/-! ## Quoted texts -/

def quotedText (text : List Char) : List Char :=
  text.flatMap fun character => Glyph.written ⟨some '\"', character⟩

private theorem Part.doubleQuoted {text : List Char}
    (unquoted : ∀ character ∈ text, character ≠ '\"') :
    Part none ('\"' :: (text ++ ['\"'])) (quotedText text) := by
  apply Part.quoted (by decide)
  apply Part.of_forall
  · intro character _
    rfl
  · intro character member
    exact beq_false_of_ne (unquoted character member)

structure Quotable (text : List Char) : Prop where
  unquoted : ∀ character ∈ text, character ≠ '\"'
  unencoded : ∀ character ∈ text, original? character = none
  spaces : ∀ character ∈ text, isBlank character = true → character = ' '

private theorem Quotable.letters_quotedText {text : List Char}
    (quotable : Quotable text) :
    letters (quotedText text) = text.map fun character =>
      ⟨character, decide (character = ' ' ∨ character ∈ shellMeta)⟩ := by
  rw [quotedText, letters_flatMap fun character _ =>
    Glyph.escaped_written ⟨_, character⟩, ← List.flatMap_pure_eq_map,
    List.flatMap, List.flatMap, List.map_congr_left]
  intro character member
  have shows : Glyph.shown character = character := by
    unfold Glyph.shown
    split
    next blank => exact (quotable.spaces character member blank).symm
    · rfl
  have unmarked : Glyph.isMark ⟨some '\"', character⟩ = false :=
    beq_false_of_ne (quotable.unquoted character member)
  simp only [Glyph.written, unmarked, quotable.unencoded character member,
    Bool.false_eq_true, if_false, shows, letters_escape]
  rfl

end Text

/-! ## Flags -/

private theorem Filter.accepts_congr (filter : Filter) {first second : String}
    (same : ∀ letter, Argument.hasFlag first letter =
      Argument.hasFlag second letter) :
    filter.accepts first = filter.accepts second := by
  cases filter <;> simp only [accepts, same]

namespace ArgumentList

/-- No printed argument reads as the flag of a directory. -/
def Suppresses (list : ArgumentList) (letter : Char) (directory : String) :
    Prop :=
  ∀ argument ∈ list.survivors,
    Text.unescape argument.toList ≠ '-' :: letter :: directory.toList

def quotedFlag (letter : Char) (directory : String) : List Char :=
  ['-', letter] ++ '\"' :: (directory.toList ++ ['\"'])

variable {letter : Char} {directory : String}

private theorem systemFlag_of_unescape (plain : letter = 'I' ∨ letter = 'L')
    {text : List Char} {argument : String}
    (member : argument.toList ∈ Text.splitWords text)
    (reads : Text.unescape argument.toList =
      '-' :: letter :: directory.toList)
    (unsubstituting : ∀ character ∈ directory.toList,
      character ∉ Text.substituting) :
    argument = systemFlag letter directory := by
  have sound := Text.sound_of_mem_split
    (Text.mem_split_of_mem_splitWords member)
  rw [← String.toList_inj, toList_systemFlag plain, ← reads]
  apply Text.eq_flatMap_shield sound
  rw [reads, List.forall_mem_cons, List.forall_mem_cons]
  refine ⟨by decide, ?_, unsubstituting⟩
  rcases plain with rfl | rfl <;> decide

private theorem mem_splitWords_quotedFlag (plain : letter = 'I' ∨ letter = 'L')
    {text : List Char} (closed : Text.openAtEnd none text = none)
    (spells : quotedFlag letter directory ∈ Text.spelledWords text)
    (unquoted : ∀ character ∈ directory.toList, character ≠ '\"') :
    '-' :: letter :: Text.quotedText directory.toList ∈
      Text.splitWords text := by
  have flag : Text.Part none ['-', letter] ['-', letter] :=
    (isPlain_flag plain).part nofun
  have part := flag.append (.doubleQuoted unquoted)
  have complete : Text.completeWords text = Text.split none text := by
    rw [Text.completeWords, closed]
    rfl
  rw [Text.splitWords, complete, List.mem_filter,
    Text.split_eq_map_spelledWords]
  exact ⟨List.mem_map.mpr ⟨_, spells, part.written_eq⟩, rfl⟩

private theorem letters_quotedFlag (plain : letter = 'I' ∨ letter = 'L')
    (text : List Char) :
    Text.letters ('-' :: letter :: text) =
      ⟨'-', false⟩ :: ⟨letter, false⟩ :: Text.letters text := by
  have other : letter ≠ '\\' := by
    rcases plain with rfl | rfl <;> decide
  rw [Text.Escaped.letters_plain _ (by decide),
    Text.Escaped.letters_plain _ other]

private theorem unescape_quotedFlag (plain : letter = 'I' ∨ letter = 'L')
    (quotable : Text.Quotable directory.toList) :
    Text.unescape ('-' :: letter :: Text.quotedText directory.toList) =
      '-' :: letter :: directory.toList := by
  rw [Text.unescape, letters_quotedFlag plain, quotable.letters_quotedText,
    List.map_cons, List.map_cons, List.map_map]
  exact congrArg _ (congrArg _ (List.map_id _))

/-- A quoted flag with a dollar sign or a parenthesis is not spelled like the
flag of any system directory. -/
theorem quotedFlag_ne_systemFlag (plain : letter = 'I' ∨ letter = 'L')
    (quotable : Text.Quotable directory.toList) {character : Char}
    (member : character ∈ directory.toList)
    (substitutes : character ∈ Text.substituting) (other : String) :
    '-' :: letter :: Text.quotedText directory.toList ≠
      (systemFlag letter other).toList := by
  intro same
  have guards : Text.isGuarded character = true := by
    simp_all [Text.isGuarded, Text.substituting]
  have quiet : ¬ (character = ' ' ∨ character ∈ Text.shellMeta) := by
    simp only [Text.substituting, List.mem_cons, List.not_mem_nil, or_false]
      at substitutes
    rcases substitutes with rfl | rfl | rfl <;> decide
  have listed : (⟨character, false⟩ : Text.Letter) ∈
      Text.letters (Text.quotedText directory.toList) := by
    rw [quotable.letters_quotedText, List.mem_map]
    exact ⟨character, member, by rw [decide_eq_false quiet]⟩
  have alone : (⟨character, false⟩ : Text.Letter) ∈
      Text.letters ((systemFlag letter other).toList) := by
    rw [← same, letters_quotedFlag plain]
    exact List.mem_cons_of_mem _ (List.mem_cons_of_mem _ listed)
  rw [toList_systemFlag plain] at alone
  cases Text.escaped_of_mem_letters_shield alone guards

end ArgumentList

/-! ## Collected arguments -/

namespace FlagClass

variable {settings : Settings} {flagClass : FlagClass} {catalogue : Catalogue}
  {filter : Filter} {list : ArgumentList} {before after : Ledger}
  {directory : String}

private theorem suppresses_of_collect
    (collected : flagClass.collect settings catalogue filter before =
      .ok list after)
    (excluded : directory ∈ flagClass.excludedDirectories settings)
    (unsubstituting : ∀ character ∈ directory.toList,
      character ∉ Text.substituting) :
    list.Suppresses flagClass.directoryLetter directory := by
  intro argument survives reads
  rcases (mem_survivors_of_collect collected argument).mp survives with
    ⟨⟨package, _, field, _, split⟩, _, included⟩
  apply included
  rw [ArgumentList.systemFlag_of_unescape flagClass.directoryLetter_eq split
    reads unsubstituting]
  exact List.mem_map_of_mem excluded

private theorem quotedFlag_mem_survivors
    (collected : flagClass.collect settings catalogue filter before =
      .ok list after)
    {package : Package} (listed : package ∈ catalogue.packages)
    {field : Field} (visited : field ∈ flagClass.fields settings package)
    (spells : ArgumentList.quotedFlag flagClass.directoryLetter directory ∈
      Text.spelledWords (package.field field).toList)
    (accepts : filter.accepts (ArgumentList.systemFlag
      flagClass.directoryLetter directory) = true)
    (quotable : Text.Quotable directory.toList) {character : Char}
    (member : character ∈ directory.toList)
    (substitutes : character ∈ Text.substituting) :
    String.ofList ('-' :: flagClass.directoryLetter ::
      Text.quotedText directory.toList) ∈ list.survivors := by
  have plain := flagClass.directoryLetter_eq
  have closed := ((collect_eq_ok collected).splits package listed field
    visited).closed
  rw [mem_survivors_of_collect collected, String.toList_ofList]
  refine ⟨⟨package, listed, field, visited,
    ArgumentList.mem_splitWords_quotedFlag plain closed spells
      quotable.unquoted⟩, ?_, ?_⟩
  · rw [← accepts]
    apply filter.accepts_congr
    intro letter
    simp [Argument.hasFlag, ArgumentList.systemFlag]
  · intro excluded
    rcases List.mem_map.mp excluded with ⟨other, _, same⟩
    apply ArgumentList.quotedFlag_ne_systemFlag plain quotable member
      substitutes other
    rw [same, String.toList_ofList]

end FlagClass

/-- A system directory without dollar signs and parentheses is suppressed,
however the fields of the packages spell its flag. With one of these it is not,
as soon as a field just quotes it. -/
theorem suppresses_system_directory_iff {settings : Settings}
    {flagClass : FlagClass} {catalogue : Catalogue} {filter : Filter}
    {list : ArgumentList} {before after : Ledger} {directory : String}
    (collected : flagClass.collect settings catalogue filter before =
      .ok list after)
    (excluded : directory ∈ flagClass.excludedDirectories settings) :
    ((∀ character ∈ directory.toList, character ∉ Text.substituting) →
      list.Suppresses flagClass.directoryLetter directory) ∧
    ∀ package ∈ catalogue.packages,
      ∀ field ∈ flagClass.fields settings package,
        ArgumentList.quotedFlag flagClass.directoryLetter directory ∈
            Text.spelledWords (package.field field).toList →
        filter.accepts (ArgumentList.systemFlag flagClass.directoryLetter
          directory) = true →
        Text.Quotable directory.toList →
          (list.Suppresses flagClass.directoryLetter directory ↔
            ∀ character ∈ directory.toList,
              character ∉ Text.substituting) := by
  have suppressed := FlagClass.suppresses_of_collect collected excluded
  refine ⟨suppressed, ?_⟩
  intro package listed field visited spells accepts quotable
  refine ⟨?_, suppressed⟩
  intro suppresses character member substitutes
  have survives := FlagClass.quotedFlag_mem_survivors collected listed visited
    spells accepts quotable member substitutes
  apply suppresses _ survives
  rw [String.toList_ofList]
  exact ArgumentList.unescape_quotedFlag flagClass.directoryLetter_eq quotable

/-! ## Quoted system directories -/

namespace QuotedDirectories

def field : String := "-I\"/opt/(x)\" -I\"/opt/my dir\" -DA"

def settings : Settings :=
  FileTable.settings
    { Choices.none with
      systemIncludePath := some "/opt/(x):/opt/my dir" }
    [FileTable.metadataFile "a" ("Cflags: " ++ field ++ "\n")]

def collects (catalogue : Catalogue) : Bool :=
  match FlagClass.cflags.leaveOut settings settings.freshLedger with
  | .ok _ between =>
      match FlagClass.cflags.readPackages settings catalogue.packages
        between with
      | .ok .. => true
      | .error .. => false
  | .error .. => false

theorem collect_of_collects {catalogue : Catalogue}
    (collects : collects catalogue = true) :
    ∃ list finish, FlagClass.cflags.collect settings catalogue .any
      settings.freshLedger = .ok list finish := by
  unfold QuotedDirectories.collects at collects
  rw [FlagClass.collect_eq]
  split at collects
  next list between left =>
    split at collects
    next words finish read =>
      refine ⟨(words.filter Filter.any.accepts).foldl ArgumentList.push list,
        finish, ?_⟩
      simp only [bind, EStateM.bind, left, read]
      rfl
    · cases collects
  · cases collects

private theorem resolve_collects :
    ∃ catalogue after,
      Catalogue.resolve settings ["a"] settings.freshLedger =
        .ok catalogue after ∧
      (catalogue.packages.map (·.field .cflags), collects catalogue) =
        ([field], true) := by
  apply Catalogue.resolve_of_resolve?
  cbv

private theorem excludedDirectories_eq :
    FlagClass.cflags.excludedDirectories settings =
      ["/opt/(x)", "/opt/my dir"] := by
  cbv

private theorem fields_eq (package : Package) :
    FlagClass.cflags.fields settings package = [.cflags] := by
  cbv

private theorem spelledWords_field : Text.spelledWords field.toList =
    [ArgumentList.quotedFlag 'I' "/opt/(x)",
      ArgumentList.quotedFlag 'I' "/opt/my dir", "-DA".toList] := by
  cbv

private theorem quotable : Text.Quotable "/opt/(x)".toList := by
  constructor <;> simp <;> decide

/-- A directory with a space is suppressed, and one with parentheses is not. -/
theorem suppresses_spaced_directory :
    ∃ catalogue between list finish,
      Catalogue.resolve settings ["a"] settings.freshLedger =
        .ok catalogue between ∧
      FlagClass.cflags.collect settings catalogue .any settings.freshLedger =
        .ok list finish ∧
      "/opt/my dir" ∈ FlagClass.cflags.excludedDirectories settings ∧
      list.Suppresses 'I' "/opt/my dir" ∧
      "/opt/(x)" ∈ FlagClass.cflags.excludedDirectories settings ∧
      ¬ list.Suppresses 'I' "/opt/(x)" := by
  have spaced : "/opt/my dir" ∈
      FlagClass.cflags.excludedDirectories settings := by
    simp [excludedDirectories_eq]
  have parenthesized : "/opt/(x)" ∈
      FlagClass.cflags.excludedDirectories settings := by
    simp [excludedDirectories_eq]
  rcases resolve_collects with ⟨catalogue, between, resolved, shown⟩
  rcases Prod.mk.inj shown with ⟨fields, collects⟩
  rcases collect_of_collects collects with ⟨list, finish, collected⟩
  rcases List.map_eq_singleton_iff.mp fields with ⟨package, alone, spelling⟩
  refine ⟨catalogue, between, list, finish, resolved, collected, spaced, ?_,
    parenthesized, ?_⟩
  · apply (suppresses_system_directory_iff collected spaced).1
    simp [Text.substituting]
  · have exactly := (suppresses_system_directory_iff collected
      parenthesized).2 package (by simp [alone]) .cflags (by simp [fields_eq])
      (by rw [spelling, spelledWords_field]; exact List.mem_cons_self ..) rfl
      quotable
    intro suppresses
    exact exactly.mp suppresses '(' (by simp) (by decide)

/-- The parenthesized directory is printed from a field that quotes it. -/
theorem parenthesized_directory_printed :
    settings.isOn .keepSystemCflags = false ∧
      "/opt/(x)" ∈ FlagClass.cflags.excludedDirectories settings ∧
      ∃ catalogue between list finish,
        Catalogue.resolve settings ["a"] settings.freshLedger =
          .ok catalogue between ∧
        (∃ package ∈ catalogue.packages,
          ArgumentList.quotedFlag 'I' "/opt/(x)" ∈
            Text.spelledWords (package.field .cflags).toList) ∧
        FlagClass.cflags.collect settings catalogue .any settings.freshLedger =
          .ok list finish ∧
        "-I/opt/(x)" ∈ list.survivors ∧
        Text.unescape "-I/opt/(x)".toList =
          '-' :: 'I' :: "/opt/(x)".toList := by
  rcases resolve_collects with ⟨catalogue, between, resolved, shown⟩
  rcases Prod.mk.inj shown with ⟨fields, collects⟩
  rcases collect_of_collects collects with ⟨list, finish, collected⟩
  rcases List.map_eq_singleton_iff.mp fields with ⟨package, alone, spelling⟩
  have listed : package ∈ catalogue.packages := by simp [alone]
  have spells : ArgumentList.quotedFlag 'I' "/opt/(x)" ∈
      Text.spelledWords (package.field .cflags).toList := by
    rw [spelling, spelledWords_field]
    exact List.mem_cons_self ..
  have opening : '(' ∈ "/opt/(x)".toList := by simp
  have survives := FlagClass.quotedFlag_mem_survivors collected listed
    (by simp [fields_eq]) spells rfl quotable opening (by decide)
  refine ⟨by decide, by simp [excludedDirectories_eq], catalogue, between,
    list, finish, resolved, ⟨package, listed, spells⟩, collected, survives,
    by decide⟩

end QuotedDirectories

end PkgConfig
