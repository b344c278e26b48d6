import Mathlib.Data.List.TakeWhile
import PkgConfig.Proofs.ExpansionOrder
import PkgConfig.Proofs.PlacedPaths
import PkgConfig.Proofs.SingleArguments
import PkgConfig.Proofs.WordCharges

namespace PkgConfig

/-! Directories that are configured, as the fields of packages refer to them.
The top build directory is encoded when it becomes the value of a variable. The
system directories are not: what they hold is taken for references, quotes and
ends of words like any text of the field. -/

/-! ## References of a text -/

namespace Expansion

inductive RefersTo (name : String) : List Char → Prop
  | here (read : String.ofList (referenceName text) = name) :
      RefersTo name ('$' :: '\x7b' :: text)
  | behind (rest : RefersTo name (afterReference text)) :
      RefersTo name ('$' :: '\x7b' :: text)
  | dollar (rest : RefersTo name text) : RefersTo name ('$' :: '$' :: text)
  | literal (plain : isMarked (character :: text) = false)
      (rest : RefersTo name text) : RefersTo name (character :: text)

theorem RefersTo.unclosed {name : String} {text : List Char}
    (refers : RefersTo name text) :
    ∀ character ∈ name.toList, character ≠ '\x7d' := by
  induction refers with
  | here read =>
      intro character member
      rw [← read, String.toList_ofList] at member
      simpa using List.mem_takeWhile_imp member
  | behind _ induction => exact induction
  | dollar _ induction => exact induction
  | literal _ _ induction => exact induction

theorem RefersTo.exists_value {name : String} {scope : Scope}
    {text written : List Char} {nesting : Nat} (refers : RefersTo name text)
    (substitutes : Substitutes scope text written nesting) :
    ∃ value first depth, scope.find? name = some value ∧
      Substitutes scope value.toList first depth ∧ depth < nesting := by
  induction refers generalizing written nesting with
  | here read =>
      rcases Substitutes.reference_iff.mp substitutes with
        ⟨value, first, depth, _, _, bound, inner, _, _, rfl⟩
      exact ⟨value, first, depth, read ▸ bound, inner, by omega⟩
  | behind _ induction =>
      rcases Substitutes.reference_iff.mp substitutes with
        ⟨_, _, _, _, _, _, _, rest, _, rfl⟩
      rcases induction rest with ⟨value, first, depth, bound, inner, less⟩
      exact ⟨value, first, depth, bound, inner, by omega⟩
  | dollar _ induction =>
      rcases Substitutes.dollar_iff.mp substitutes with ⟨_, _, rest⟩
      exact induction rest
  | literal plain _ induction =>
      rcases (Substitutes.literal_iff plain).mp substitutes with ⟨_, _, rest⟩
      exact induction rest

private theorem RefersTo.not_substitutes {name value : String} {scope : Scope}
    (refers : RefersTo name value.toList)
    (bound : scope.find? name = some value) {written : List Char}
    {nesting : Nat} :
    ¬ Substitutes scope value.toList written nesting := by
  induction nesting using Nat.strongRecOn generalizing written with
  | ind nesting shallower =>
      intro substitutes
      rcases refers.exists_value substitutes with
        ⟨_, first, depth, bound', inner, less⟩
      cases bound.symm.trans bound'
      exact shallower depth less inner

def reference (name : String) : String :=
  "$\x7b" ++ name ++ "\x7d"

theorem refersTo_reference {name : String}
    (unclosed : ∀ character ∈ name.toList, character ≠ '\x7d') :
    RefersTo name (reference name).toList := by
  have spelled : (reference name).toList =
      '$' :: '\x7b' :: (name.toList ++ '\x7d' :: []) := by
    simp [reference]
  rw [spelled]
  refine .here ?_
  rw [(referenceName_eq unclosed []).1, String.ofList_toList]

theorem IsLiteral.cons {character : Char} {text : List Char}
    (plain : isMarked (character :: text) = false)
    (literal : IsLiteral text) : IsLiteral (character :: text) := by
  intro rest suffix
  rcases List.suffix_cons_iff.mp suffix with rfl | suffix
  · exact plain
  · exact literal rest suffix

/-- A text either stands for itself, or means less than it has characters, or
refers to something. -/
theorem Substitutes.literal_or_shorter_or_refers {scope : Scope}
    {text written : List Char} {nesting : Nat}
    (substitutes : Substitutes scope text written nesting) :
    IsLiteral text ∧ written = text ∨ written.length < text.length ∨
      ∃ name, RefersTo name text := by
  induction substitutes with
  | done =>
      refine .inl ⟨?_, rfl⟩
      exact .of_plain nofun
  | dollar _ induction =>
      rcases induction with ⟨_, rfl⟩ | shorter | ⟨name, refers⟩
      · exact .inr (.inl (by simp))
      · exact .inr (.inl (by simp only [List.length_cons]; omega))
      · exact .inr (.inr ⟨name, .dollar refers⟩)
  | reference => exact .inr (.inr ⟨_, .here rfl⟩)
  | literal plain _ induction =>
      rcases induction with ⟨literal, rfl⟩ | shorter | ⟨name, refers⟩
      · exact .inl ⟨literal.cons plain, rfl⟩
      · exact .inr (.inl (by simp only [List.length_cons]; omega))
      · exact .inr (.inr ⟨name, .literal plain refers⟩)

end Expansion

/-! ## Spellings -/

namespace Package.IncludeSpelling

variable (spelling : IncludeSpelling)

def marks : Nat := 2 * spelling.quote.toList.length

private theorem length_around (middle : List Char) :
    (spelling.around middle).length =
      middle.length + (includeFlag "" spelling.ending).length +
        spelling.marks := by
  have flag := congrArg List.length spelling.flag
  simp only [List.length_append, List.length_cons, List.length_nil] at flag
  simp only [around, Text.wrap, includeFlag, ending, marks, List.length_append,
    List.length_cons, List.length_nil, String.toList_empty]
  omega

private theorem silent_around (middle : List Char) :
    spelling.marks ≤ Text.silent none (spelling.around middle) ∧
      (Text.silent none (spelling.around middle) ≤ spelling.marks →
        ∀ character ∈ middle,
          Text.Glyph.isSilent ⟨spelling.quote, character⟩ = false) := by
  have unquoted : ∀ opening ∈ (none : Option Char),
      Text.isQuote opening = true := nofun
  have outside := spelling.plain_parts.1
  cases quoted : spelling.quote with
  | none =>
      rw [marks, quoted]
      refine ⟨Nat.zero_le _, fun within character member => ?_⟩
      apply Text.silent_eq_zero_iff.mp (Nat.le_zero.mp within)
      simp [around, Text.wrap, member]
  | some opening =>
      have quoting := spelling.quoting opening quoted
      let held := spelling.inside ++ (middle ++ spelling.within)
      have spelled : spelling.around middle = spelling.outside ++
          opening :: (held ++ opening :: spelling.beyond) := by
        simp [around, Text.wrap, quoted, held]
      have whole : Text.silent none (spelling.around middle) =
          Text.silent (some opening) (held ++ opening :: spelling.beyond) +
            1 := by
        rw [spelled, Text.silent_append,
          Text.silent_eq_zero_iff.mpr (outside.not_isSilent unquoted),
          (outside.part unquoted).closed, Text.silent_opening quoting,
          Nat.zero_add]
      have both : spelling.marks = 2 := by
        rw [marks, quoted]
        rfl
      rcases Text.silent_closed quoting held spelling.beyond with
        ⟨closed, alone⟩
      rw [whole, both]
      refine ⟨by omega, fun within character member => ?_⟩
      apply Text.not_isSilent_of_ne
      rintro rfl
      exact alone (by omega) (by simp [held, member])

private theorem length_includeFlag (directory : String) (ending : List Char) :
    (includeFlag directory ending).length =
      directory.toList.length + (includeFlag "" ending).length := by
  simp [includeFlag]
  omega

private theorem unescape_around {written : List Char}
    (escaped : Text.Escaped written) :
    Text.unescape (['-', 'I'] ++ (written ++ spelling.ending)) =
      ['-', 'I'] ++ (Text.unescape written ++ spelling.ending) := by
  have flag : Text.Escaped ['-', 'I'] :=
    .plain (by decide) (by decide) (.plain (by decide) (by decide) .nil)
  have ending : Text.unescape spelling.ending = spelling.ending := by
    have shielded := Text.unescape_shield fun character member =>
      (spelling.plain character member).2
    rwa [spelling.plain.flatMap_shield] at shielded
  rw [flag.unescape_append, escaped.unescape_append, ending]
  rfl

private theorem isOneArgument_around {directory : List Char}
    (audible : ∀ character ∈ directory,
      Text.Glyph.isSilent ⟨spelling.quote, character⟩ = false)
    (unencoded : ∀ character ∈ directory, Text.original? character = none) :
    Text.IsOneArgument (spelling.around directory) (['-', 'I'] ++
      (directory.map Text.Glyph.shown ++ spelling.ending)) := by
  have part := spelling.part_around (.of_not_isSilent audible)
  have single := part.isOneArgument (by simp)
  have escaped : Text.Escaped (directory.flatMap fun character =>
      Text.Glyph.written ⟨spelling.quote, character⟩) :=
    .flatMap fun character _ => Text.Glyph.escaped_written _
  rwa [spelling.unescape_around escaped,
    Text.unescape_flatMap_written audible unencoded] at single

/-- A directory as it stands in the field makes one argument that reads as the
directory exactly if it reads as itself between the quotes. -/
theorem isOneArgument_around_iff {directory : String}
    (unencoded : ∀ character ∈ directory.toList,
      Text.original? character = none) :
    Text.IsOneArgument (spelling.around directory.toList)
        (includeFlag directory spelling.ending) ↔
      Text.ReadsAsItself spelling.quote directory.toList := by
  have shown_eq : directory.toList.map Text.Glyph.shown = directory.toList ↔
      ∀ character ∈ directory.toList,
        Text.Glyph.shown character = character := by
    have each := @List.map_inj_left _ _ directory.toList Text.Glyph.shown id
    rwa [List.map_id] at each
  constructor
  · intro single
    have shorter := single.length_le
    rw [length_includeFlag, spelling.length_around] at shorter
    have audible := (spelling.silent_around directory.toList).2 (by omega)
    have same := single.unique (spelling.isOneArgument_around audible unencoded)
    have shows := shown_eq.mp
      (List.append_cancel_right (List.append_cancel_left same)).symm
    exact fun character member => ⟨audible character member,
      shows character member⟩
  · intro reads
    have single := spelling.isOneArgument_around
      (fun character member => (reads character member).1) unencoded
    rwa [shown_eq.mpr fun character member => (reads character member).2]
      at single

private theorem not_isOneArgument_around {directory : String}
    {written : List Char} (shorter : written.length < directory.toList.length) :
    ¬ Text.IsOneArgument (spelling.around written)
      (includeFlag directory spelling.ending) := by
  intro single
  have fits := single.length_le
  rw [length_includeFlag, spelling.length_around] at fits
  have quotes := (spelling.silent_around written).1
  omega

private theorem exists_of_means {scope : Scope} {name directory : String}
    {text : List Char}
    (unclosed : ∀ character ∈ name.toList, character ≠ '\x7d')
    (bound : scope.find? name = some directory)
    (means : Expansion.Means scope (spelling.value name) text) :
    ∃ written depth,
      Expansion.Substitutes scope directory.toList written depth ∧
      text = spelling.around written := by
  rcases means with ⟨nesting, substitutes, _⟩
  have referred := substitutes
  rw [spelling.value_eq] at referred
  rcases referred.of_append_plain spelling.ne_dollar.1 with ⟨_, referred⟩
  rcases referred.of_named unclosed bound with ⟨written, depth, inner⟩
  exact ⟨written, depth, inner, substitutes.unique
    (spelling.substitutes_of_bound unclosed bound inner)⟩

end Package.IncludeSpelling

/-! ## Fields -/

def StaysOneArgument (scope : Scope) (field : String)
    (expected : List Char) : Prop :=
  ∃ (argument : String) (bytes : Nat),
    Text.unescape argument.toList = expected ∧
    ∀ (path realname : String) (before : Ledger),
      before.used + bytes ≤ before.budget.capacity →
      ∃ text between after,
        expand scope path field before = .ok text between ∧
        fieldWords realname [] text.toList between = .ok [argument] after

private theorem staysOneArgument_iff {scope : Scope} {field : String}
    {expected : List Char} :
    StaysOneArgument scope field expected ↔
      ∃ text, Expansion.Means scope field.toList text ∧
        Text.IsOneArgument text expected := by
  constructor
  · intro ⟨argument, bytes, reads, splits⟩
    rcases splits "" "" (.fresh bytes) (Nat.le_of_eq (Nat.zero_add bytes))
      with ⟨text, between, after, expanded, words⟩
    rcases fieldWords_charged words with ⟨closed, same, _⟩
    rcases List.map_eq_singleton_iff.mp same.symm with ⟨word, single, rfl⟩
    rw [String.toList_ofList] at reads
    exact ⟨text.toList, Expansion.means_of_expand expanded, closed, word,
      single, reads⟩
  · intro ⟨text, means, closed, argument, words, reads⟩
    refine ⟨String.ofList argument, Text.byteLength text +
      Text.byteLength (Text.split none text).flatten, ?_, ?_⟩
    · rw [String.toList_ofList]
      exact reads
    · intro path realname before enough
      have room : before.used + Text.byteLength text ≤
          before.budget.capacity := by omega
      rcases Ledger.Charged.exists_of_fits room with ⟨between, charged⟩
      have fits : between.used +
          Text.byteLength (Text.split none text).flatten ≤
            between.budget.capacity := by
        rw [charged.used, charged.capacity]
        omega
      rcases Text.takeWords_eq_splitWords text between fits with
        ⟨after, taken, _⟩
      refine ⟨_, between, after,
        Expansion.expand_of_means means path charged, ?_⟩
      rw [words, closed] at taken
      rw [String.toList_ofList, Text.fieldWords_eq_takeWords,
        Run.bind_eq_ok_iff]
      exact ⟨_, after, taken, rfl⟩

namespace Package.IncludeSpelling

variable (spelling : IncludeSpelling) {scope : Scope} {name directory : String}
  (unclosed : ∀ character ∈ name.toList, character ≠ '\x7d')
  (unencoded : ∀ character ∈ directory.toList, Text.original? character = none)

include unclosed unencoded

private theorem stays_of_encoded
    (bound : scope.find? name = some (Text.encode directory)) :
    StaysOneArgument scope (String.ofList (spelling.value name))
      (includeFlag directory spelling.ending) := by
  have substitutes := spelling.substitutes_of_bound unclosed bound
    (Expansion.Substitutes.encoded scope directory)
  have single := (spelling.part directory).isOneArgument
    (by simp [spelling.flatMap_shield_includeFlag])
  rw [spelling.unescape_includeFlag unencoded] at single
  rw [staysOneArgument_iff, String.toList_ofList]
  exact ⟨_, ⟨_, substitutes, by decide⟩, single⟩

private theorem stays_iff_of_isLiteral
    (bound : scope.find? name = some directory)
    (literal : Expansion.IsLiteral directory.toList) :
    StaysOneArgument scope (String.ofList (spelling.value name))
        (includeFlag directory spelling.ending) ↔
      Text.ReadsAsItself spelling.quote directory.toList := by
  have inner := literal.substitutes scope
  rw [staysOneArgument_iff, String.toList_ofList,
    ← spelling.isOneArgument_around_iff unencoded]
  constructor
  · intro ⟨text, means, single⟩
    rcases spelling.exists_of_means unclosed bound means with
      ⟨written, _, other, rfl⟩
    rwa [other.unique inner] at single
  · intro single
    exact ⟨_, ⟨_, spelling.substitutes_of_bound unclosed bound inner,
      by decide⟩, single⟩

end Package.IncludeSpelling

/-! ## Configured directories -/

namespace Table

variable {Key : Type u} {Value : Type v} [Ord Key] [Std.TransOrd Key]
  [Std.LawfulEqOrd Key]

private theorem find?_ofList_append_of_not_mem
    {first later : List (Key × Value)}
    {key : Key} (absent : key ∉ later.map Prod.fst) :
    (ofList (first ++ later)).find? key = (ofList first).find? key := by
  rw [ofList, List.foldl_append, ← ofList]
  generalize ofList first = table
  induction later generalizing table with
  | nil => rfl
  | cons entry later induction =>
      rw [List.map_cons, List.mem_cons, not_or] at absent
      rw [List.foldl_cons, induction absent.2, find?_insert,
        if_neg (mt Std.LawfulEqOrd.eq_of_compare absent.1)]

private theorem find?_ofList_concat (pairs : List (Key × Value)) (key : Key)
    (value : Value) :
    (ofList (pairs ++ [(key, value)])).find? key = some value := by
  rw [ofList, List.foldl_append, ← ofList, List.foldl_cons, List.foldl_nil,
    find?_insert, if_pos Std.ReflOrd.compare_self]

end Table

inductive ConfiguredDirectory
  | topBuild
  | systemInclude
  | systemLibrary
  deriving DecidableEq, Repr

namespace ConfiguredDirectory

def name : ConfiguredDirectory → String
  | topBuild => "pc_top_builddir"
  | systemInclude => "pc_system_includedirs"
  | systemLibrary => "pc_system_libdirs"

def configured? (kind : ConfiguredDirectory) (choices : Choices)
    (environment : Environment) : Option String :=
  match kind with
  | topBuild => Choices.orVariable choices.topBuildDirectory environment
      "PKG_CONFIG_TOP_BUILD_DIR"
  | systemInclude => Choices.orVariable choices.systemIncludePath environment
      "PKG_CONFIG_SYSTEM_INCLUDE_PATH"
  | systemLibrary => Choices.orVariable choices.systemLibraryPath environment
      "PKG_CONFIG_SYSTEM_LIBRARY_PATH"

def value (kind : ConfiguredDirectory) (directory : String) : String :=
  match kind with
  | topBuild => Text.encode directory
  | systemInclude => directory
  | systemLibrary => directory

def choose (kind : ConfiguredDirectory) (directory : String)
    (definitions : List (String × String)) : Choices :=
  let choices := { Choices.none with definitions := definitions }
  match kind with
  | topBuild => { choices with topBuildDirectory := some directory }
  | systemInclude => { choices with systemIncludePath := some directory }
  | systemLibrary => { choices with systemLibraryPath := some directory }

theorem unclosed (kind : ConfiguredDirectory) :
    ∀ character ∈ kind.name.toList, character ≠ '\x7d' := by
  cases kind with
  | topBuild => simp [name]
  | systemInclude => simp [name]
  | systemLibrary => simp [name]

private theorem configured?_choose (kind : ConfiguredDirectory)
    (directory : String)
    (definitions : List (String × String)) (environment : Environment) :
    kind.configured? (kind.choose directory definitions) environment =
      some directory := by
  cases kind with
  | topBuild => rfl
  | systemInclude => rfl
  | systemLibrary => rfl

private theorem definitions_choose (kind : ConfiguredDirectory)
    (directory : String) (definitions : List (String × String)) :
    (kind.choose directory definitions).definitions = definitions := by
  cases kind with
  | topBuild => rfl
  | systemInclude => rfl
  | systemLibrary => rfl

private theorem find?_globals {kind : ConfiguredDirectory} {choices : Choices}
    {environment : Environment} {directory : String}
    (configured : kind.configured? choices environment = some directory)
    (kept : kind.name ∉ choices.definitions.map Prod.fst) (loader : Loader) :
    (choices.settings environment loader).globals.find? kind.name =
      some (kind.value directory) := by
  rw [Choices.settings, Table.find?_ofList_append_of_not_mem kept]
  cases kind with
  | topBuild =>
      rw [configured?] at configured
      rw [configured]
      rfl
  | systemInclude =>
      rw [configured?] at configured
      rw [configured]
      rfl
  | systemLibrary =>
      rw [configured?] at configured
      rw [configured]
      rfl

private theorem find?_scope {kind : ConfiguredDirectory} {choices : Choices}
    {environment : Environment} {directory : String}
    (configured : kind.configured? choices environment = some directory)
    (kept : kind.name ∉ choices.definitions.map Prod.fst) (loader : Loader)
    (locals : Bindings) :
    Scope.find? ⟨(choices.settings environment loader).globals, locals⟩
      kind.name = some (kind.value directory) := by
  rw [Scope.find?, find?_globals configured kept loader]

private theorem value_of_ne_topBuild {kind : ConfiguredDirectory}
    (other : kind ≠ .topBuild) (directory : String) :
    kind.value directory = directory := by
  cases kind with
  | topBuild => exact absurd rfl other
  | systemInclude => rfl
  | systemLibrary => rfl

def scope (kind : ConfiguredDirectory) (directory : String)
    (definitions : List (String × String)) : Scope where
  globals := ((kind.choose directory definitions).settings .empty
    (FileTable.loader .empty)).globals
  locals := .empty

private theorem find?_scope_self {kind : ConfiguredDirectory}
    {directory : String}
    (other : kind ≠ .topBuild) {definitions : List (String × String)}
    (kept : kind.name ∉ definitions.map Prod.fst) :
    (kind.scope directory definitions).find? kind.name = some directory := by
  have bound := find?_scope (kind.configured?_choose directory definitions
    .empty) (by rwa [definitions_choose]) (FileTable.loader .empty) .empty
  rwa [value_of_ne_topBuild other] at bound

private theorem find?_scope_defined (kind : ConfiguredDirectory)
    (directory name value : String) :
    (kind.scope directory [(name, value)]).find? name = some value := by
  have defined : (kind.scope directory [(name, value)]).globals.find? name =
      some value := by
    rw [scope, Choices.settings, definitions_choose]
    exact Table.find?_ofList_concat _ _ _
  rw [Scope.find?, defined]

/-- A directory that is not encoded has to stand for itself: whatever it refers
to could be defined by a reference to itself. -/
theorem isLiteral_of_stays {kind : ConfiguredDirectory} {directory : String}
    (other : kind ≠ .topBuild) (spelling : Package.IncludeSpelling)
    (stays : ∀ definitions : List (String × String),
      kind.name ∉ definitions.map Prod.fst →
        StaysOneArgument (kind.scope directory definitions)
          (String.ofList (spelling.value kind.name))
          (Package.includeFlag directory spelling.ending)) :
    Expansion.IsLiteral directory.toList := by
  have evaluated : ∀ definitions, kind.name ∉ definitions.map Prod.fst →
      ∃ written depth,
        Expansion.Substitutes (kind.scope directory definitions)
          directory.toList written depth ∧
        Text.IsOneArgument (spelling.around written)
          (Package.includeFlag directory spelling.ending) := by
    intro definitions kept
    rcases staysOneArgument_iff.mp (stays definitions kept) with
      ⟨text, means, single⟩
    rw [String.toList_ofList] at means
    rcases spelling.exists_of_means kind.unclosed
      (find?_scope_self other kept) means with ⟨written, depth, inner, rfl⟩
    exact ⟨written, depth, inner, single⟩
  rcases evaluated [] List.not_mem_nil with ⟨written, depth, inner, single⟩
  rcases inner.literal_or_shorter_or_refers with
    ⟨literal, _⟩ | shorter | ⟨name, refers⟩
  · exact literal
  · exact absurd single (spelling.not_isOneArgument_around shorter)
  · by_cases own : name = kind.name
    · subst own
      exact absurd inner
        (refers.not_substitutes (find?_scope_self other List.not_mem_nil))
    · rcases evaluated [(name, Expansion.reference name)]
        (by simpa using Ne.symm own) with ⟨_, _, inner, _⟩
      rcases refers.exists_value inner with ⟨value, _, _, bound, nested, _⟩
      cases bound.symm.trans (kind.find?_scope_defined directory name _)
      exact absurd nested
        ((Expansion.refersTo_reference refers.unclosed).not_substitutes bound)

end ConfiguredDirectory

/-- Which configured directories stay one argument, whatever else is configured
and whatever the file of the package defines: those that are encoded, and those
that neither refer to variables nor hold anything that the quotes of the field do
not keep together. -/
theorem configured_directory_is_one_argument_iff {directory : String}
    (unencoded : ∀ character ∈ directory.toList,
      Text.original? character = none)
    (kind : ConfiguredDirectory) (spelling : Package.IncludeSpelling) :
    (∀ (choices : Choices) (environment : Environment) (loader : Loader)
        (locals : Bindings),
      kind.configured? choices environment = some directory →
      kind.name ∉ choices.definitions.map Prod.fst →
        StaysOneArgument
          ⟨(choices.settings environment loader).globals, locals⟩
          (String.ofList (spelling.value kind.name))
          (Package.includeFlag directory spelling.ending)) ↔
      kind = .topBuild ∨
        Expansion.IsLiteral directory.toList ∧
          Text.ReadsAsItself spelling.quote directory.toList := by
  constructor
  · intro stays
    by_cases encoded : kind = .topBuild
    · exact .inl encoded
    · have chosen : ∀ definitions : List (String × String),
          kind.name ∉ definitions.map Prod.fst →
            StaysOneArgument (kind.scope directory definitions)
              (String.ofList (spelling.value kind.name))
              (Package.includeFlag directory spelling.ending) := by
        intro definitions kept
        exact stays _ .empty _ .empty
          (kind.configured?_choose directory definitions .empty)
          (by rwa [ConfiguredDirectory.definitions_choose])
      have literal := ConfiguredDirectory.isLiteral_of_stays encoded spelling
        chosen
      have bound := @ConfiguredDirectory.find?_scope_self kind directory
        encoded [] List.not_mem_nil
      exact .inr ⟨literal, (spelling.stays_iff_of_isLiteral kind.unclosed
        unencoded bound literal).mp (chosen [] List.not_mem_nil)⟩
  · intro kept choices environment loader locals configured unhidden
    have bound := ConfiguredDirectory.find?_scope configured unhidden loader
      locals
    by_cases encoded : kind = .topBuild
    · subst encoded
      exact spelling.stays_of_encoded
        ConfiguredDirectory.topBuild.unclosed unencoded bound
    · rcases kept with same | ⟨literal, reads⟩
      · exact absurd same encoded
      · rw [ConfiguredDirectory.value_of_ne_topBuild encoded] at bound
        exact (spelling.stays_iff_of_isLiteral kind.unclosed unencoded bound
          literal).mpr reads

/-! A system directory with a space in its name, bare and in quotes, and a top
build directory that needs none. -/

namespace SpacedDirectory

def bare : Package.IncludeSpelling where
  quote := none
  outside := []
  inside := ['-', 'I']
  within := []
  beyond := []
  quoting := by simp
  flag := rfl
  plain := by simp [Text.IsPlain]

def quoted : Package.IncludeSpelling where
  quote := some '\''
  outside := []
  inside := ['-', 'I']
  within := []
  beyond := []
  quoting := by simp [Text.isQuote, Text.quotes]
  flag := rfl
  plain := by simp [Text.IsPlain]

theorem unencoded : ∀ character ∈ "/opt/my inc".toList,
    Text.original? character = none := by
  simp
  decide

theorem literal : Expansion.IsLiteral "/opt/my inc".toList := by
  apply Expansion.IsLiteral.of_plain
  simp

/-- The space ends the argument. -/
theorem bare_directory_splits :
    ¬ StaysOneArgument
      (ConfiguredDirectory.systemInclude.scope "/opt/my inc" [])
      "-I$\x7bpc_system_includedirs\x7d" "-I/opt/my inc".toList := by
  intro stays
  have bound := @ConfiguredDirectory.find?_scope_self .systemInclude
    "/opt/my inc" nofun [] List.not_mem_nil
  have reads := (bare.stays_iff_of_isLiteral
    ConfiguredDirectory.systemInclude.unclosed unencoded bound literal).mp stays
  exact absurd (reads ' ' (by simp)).1 (by decide)

theorem quoted_directory_stays :
    StaysOneArgument (ConfiguredDirectory.systemInclude.scope "/opt/my inc" [])
        "'-I$\x7bpc_system_includedirs\x7d'" "-I/opt/my inc".toList ∧
      StaysOneArgument (ConfiguredDirectory.topBuild.scope "/b (1)" [])
        "-I$\x7bpc_top_builddir\x7d" "-I/b (1)".toList := by
  constructor
  · have reads : Text.ReadsAsItself quoted.quote "/opt/my inc".toList := by
      simp [Text.ReadsAsItself]
      decide
    exact (configured_directory_is_one_argument_iff unencoded .systemInclude
      quoted).mpr (.inr ⟨literal, reads⟩) _ .empty _ .empty rfl List.not_mem_nil
  · have unencoded : ∀ character ∈ "/b (1)".toList,
        Text.original? character = none := by
      simp
      decide
    exact (configured_directory_is_one_argument_iff unencoded .topBuild
      bare).mpr (.inl rfl) _ .empty _ .empty rfl List.not_mem_nil

end SpacedDirectory

end PkgConfig
