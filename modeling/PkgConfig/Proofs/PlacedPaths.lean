import PkgConfig.Proofs.Evaluation
import PkgConfig.Proofs.FieldMeanings
import PkgConfig.Proofs.Suppression

namespace PkgConfig

/-! Paths that a package gets from where its file is. They are encoded when they
become the value of a variable, so a reference to them stays a part of a single
word in any quotes, and reads as the path when it is printed. -/

/-! ## Encoded texts -/

namespace Text

private theorem encodeCharacter_ne_dollar (character : Char) :
    encodeCharacter character ≠ '$' := by
  intro same
  have unguarded := isGuarded_encodeCharacter character
  rw [same] at unguarded
  cases unguarded

theorem unescape_shield {text : List Char}
    (unencoded : ∀ character ∈ text, original? character = none) :
    unescape (text.flatMap shield) = text := by
  have each : ∀ character ∈ text, unescape (shield character) =
      [id character] := by
    intro character member
    rw [unescape, letters_shield, unencoded character member]
    split
    · rfl
    · rfl
  rw [unescape_flatMap (fun character _ => escaped_shield character) each,
    List.map_id]

def wrap (quote : Option Char) (text : List Char) : List Char :=
  quote.toList ++ (text ++ quote.toList)

private theorem Part.wrapped {quote : Option Char}
    (quoting : ∀ opening ∈ quote, isQuote opening = true)
    {text written : List Char} (part : Part quote text written) :
    Part none (wrap quote text) written := by
  cases quote with
  | none =>
      rw [wrap, Option.toList_none, List.nil_append, List.append_nil]
      exact part
  | some opening => exact part.quoted (quoting opening rfl)

theorem Part.splitWords_eq {text written : List Char}
    (part : Part none text written) (present : written ≠ []) :
    splitWords text = [written] := by
  rw [splitWords, completeWords, part.closed, part.split_eq]
  simp [present]

private theorem fieldWords_of_part {text written : List Char}
    (part : Part none text written) (present : written ≠ [])
    (realname : String) {before : Ledger}
    (enough : before.used + byteLength written ≤ before.budget.capacity) :
    ∃ after, fieldWords realname [] text before =
      .ok [String.ofList written] after := by
  have fits : before.used + byteLength (split none text).flatten ≤
      before.budget.capacity := by
    rw [part.split_eq, List.flatten_singleton]
    exact enough
  rcases takeWords_eq_splitWords text before fits with ⟨after, taken, _⟩
  rw [part.splitWords_eq present, part.closed] at taken
  refine ⟨after, ?_⟩
  rw [fieldWords_eq_takeWords, Run.bind_eq_ok_iff]
  exact ⟨_, after, taken, rfl⟩

end Text

theorem Expansion.Substitutes.encoded (scope : Scope) (text : String) :
    Substitutes scope (Text.encode text).toList (Text.encode text).toList 0 := by
  apply Substitutes.plain
  intro character member
  rw [Text.encode, String.toList_ofList] at member
  rcases List.mem_map.mp member with ⟨original, _, rfl⟩
  exact Text.encodeCharacter_ne_dollar original

private theorem ArgumentList.appendField_of_part {package : Package}
    {field : Field} {written : List Char}
    (part : Text.Part none (package.field field).toList written)
    (present : written ≠ []) (list : ArgumentList) (filter : Filter)
    {before : Ledger}
    (enough : before.used + Text.byteLength written ≤
      before.budget.capacity) :
    ∃ after, list.appendField package field filter before =
      .ok (if filter.accepts (String.ofList written) then
        list.push (String.ofList written) else list) after := by
  rcases Text.fieldWords_of_part part present package.realname enough with
    ⟨after, words⟩
  refine ⟨after, ?_⟩
  simp only [appendField, bind, EStateM.bind, words]
  cases accepted : filter.accepts (String.ofList written) with
  | true => simp [accepted]
  | false => simp [accepted]

/-! ## Located paths -/

namespace Location

private theorem toList_directory_subset (path : String) :
    (directory path).toList ⊆ path.toList := by
  intro character member
  rw [directory, String.toList_ofList, List.mem_reverse] at member
  have kept := (List.dropWhile_sublist _).subset (List.mem_of_mem_drop member)
  exact List.mem_reverse.mp kept

end Location

namespace Package

/-- Variables whose values come from the path of a file. -/
inductive Locates (settings : Settings) (path : String) :
    String → String → Prop
  | fileDirectory : Locates settings path "pcfiledir" (Location.directory path)
  | relocated (defines : settings.isOn .definePrefix = true)
      (placed : Location.fileName (Location.directory path) = "pkgconfig") :
      Locates settings path "prefix"
        (Location.directory (Location.directory (Location.directory path)))

namespace Locates

variable {settings : Settings} {path name text : String}

theorem find?_placedBindings (locates : Locates settings path name text)
    (bindings : Bindings) :
    (placedBindings settings path bindings).find? name =
      some (Text.encode text) := by
  cases locates with
  | fileDirectory =>
      unfold placedBindings
      cases settings.isOn .definePrefix with
      | false => simp [Table.find?_insert]
      | true =>
          have other : compare "pcfiledir" "prefix" ≠ .eq := by decide
          cases relocatedPrefix? path with
          | none => simp [Table.find?_insert]
          | some directory => simp [Table.find?_insert, other]
  | relocated defines placed =>
      simp [placedBindings, relocatedPrefix?, defines, placed,
        Table.find?_insert]

private theorem subset_directory (locates : Locates settings path name text) :
    text.toList ⊆ (Location.directory path).toList := by
  cases locates with
  | fileDirectory => exact List.Subset.refl _
  | relocated =>
      exact List.Subset.trans (Location.toList_directory_subset _)
        (Location.toList_directory_subset _)

theorem unclosed (locates : Locates settings path name text) :
    ∀ character ∈ name.toList, character ≠ '\x7d' := by
  cases locates with
  | fileDirectory => simp
  | relocated => simp

end Locates

def includeFlag (directory : String) (ending : List Char) : List Char :=
  ['-', 'I'] ++ (directory.toList ++ ending)

/-- Ways to give a directory in a variable, and an ending behind it, to the
compiler. Some of it may stand in quotes, the variable included. -/
structure IncludeSpelling where
  quote : Option Char
  /-- The parts in front of the variable. -/
  (outside inside : List Char)
  /-- The parts behind the variable. -/
  (within beyond : List Char)
  quoting : ∀ opening ∈ quote, Text.isQuote opening = true
  flag : outside ++ inside = ['-', 'I']
  plain : Text.IsPlain (within ++ beyond)

namespace IncludeSpelling

variable (spelling : IncludeSpelling)

def ending : List Char := spelling.within ++ spelling.beyond

def around (middle : List Char) : List Char :=
  spelling.outside ++
    (Text.wrap spelling.quote
      (spelling.inside ++ (middle ++ spelling.within)) ++ spelling.beyond)

def value (name : String) : List Char :=
  spelling.around (['$', '\x7b'] ++ name.toList ++ ['\x7d'])

private theorem plain_flag : Text.IsPlain
    (spelling.outside ++ spelling.inside) := by
  rw [spelling.flag]
  exact ArgumentList.isPlain_flag (.inl rfl)

theorem plain_parts : Text.IsPlain spelling.outside ∧
    Text.IsPlain spelling.inside ∧ Text.IsPlain spelling.within ∧
      Text.IsPlain spelling.beyond := by
  rcases List.forall_mem_append.mp spelling.plain_flag with ⟨outside, inside⟩
  rcases List.forall_mem_append.mp spelling.plain with ⟨within, beyond⟩
  exact ⟨outside, inside, within, beyond⟩

theorem flatMap_shield_includeFlag (directory : String) :
    (includeFlag directory spelling.ending).flatMap Text.shield =
      ['-', 'I'] ++ (directory.toList.flatMap Text.shield ++
        spelling.ending) := by
  have flag := spelling.plain_flag.flatMap_shield
  rw [spelling.flag] at flag
  have ending : spelling.ending.flatMap Text.shield = spelling.ending :=
    spelling.plain.flatMap_shield
  rw [includeFlag, List.flatMap_append, List.flatMap_append, flag, ending]

theorem part_around {middle written : List Char}
    (part : Text.Part spelling.quote middle written) :
    Text.Part none (spelling.around middle)
      (['-', 'I'] ++ (written ++ spelling.ending)) := by
  rcases spelling.plain_parts with ⟨outside, inside, within, beyond⟩
  have quoting := spelling.quoting
  have unquoted : ∀ opening ∈ (none : Option Char),
      Text.isQuote opening = true := nofun
  have quoted := ((inside.part quoting).append
    (part.append (within.part quoting))).wrapped quoting
  have whole := (outside.part unquoted).append
    (quoted.append (beyond.part unquoted))
  have order : spelling.outside ++ (spelling.inside ++
      (written ++ spelling.within) ++ spelling.beyond) =
      ['-', 'I'] ++ (written ++ spelling.ending) := by
    rw [← spelling.flag]
    simp [ending]
  rwa [order] at whole

theorem part (directory : String) :
    Text.Part none (spelling.around (Text.encode directory).toList)
      ((includeFlag directory spelling.ending).flatMap Text.shield) := by
  have encoded := Text.Part.encoded spelling.quoting directory.toList
  rw [← String.toList_ofList (l := directory.toList.map _)] at encoded
  rw [spelling.flatMap_shield_includeFlag]
  exact spelling.part_around encoded

def front : List Char :=
  spelling.outside ++ (spelling.quote.toList ++ spelling.inside)

def behind : List Char :=
  spelling.within ++ (spelling.quote.toList ++ spelling.beyond)

private theorem around_eq (middle : List Char) :
    spelling.around middle = spelling.front ++ (middle ++ spelling.behind) := by
  simp [around, Text.wrap, front, behind]

theorem value_eq (name : String) :
    spelling.value name = spelling.front ++
      '$' :: '\x7b' :: (name.toList ++ '\x7d' :: spelling.behind) := by
  simp [value, around_eq]

theorem ne_dollar : (∀ character ∈ spelling.front, character ≠ '$') ∧
    ∀ character ∈ spelling.behind, character ≠ '$' := by
  rcases spelling.plain_parts with ⟨outside, inside, within, beyond⟩
  have marks : ∀ character ∈ spelling.quote.toList, character ≠ '$' := by
    rintro character member rfl
    cases spelling.quoting _ (Option.mem_toList.mp member)
  constructor
  · exact List.forall_mem_append.mpr ⟨outside.ne_dollar,
      List.forall_mem_append.mpr ⟨marks, inside.ne_dollar⟩⟩
  · exact List.forall_mem_append.mpr ⟨within.ne_dollar,
      List.forall_mem_append.mpr ⟨marks, beyond.ne_dollar⟩⟩

theorem substitutes_of_bound {scope : Scope} {name text : String}
    {written : List Char} {depth : Nat}
    (unclosed : ∀ character ∈ name.toList, character ≠ '\x7d')
    (bound : scope.find? name = some text)
    (inner : Expansion.Substitutes scope text.toList written depth) :
    Expansion.Substitutes scope (spelling.value name) (spelling.around written)
      (max (depth + 1) 0) := by
  rw [value_eq, around_eq]
  exact Expansion.Substitutes.append_plain spelling.ne_dollar.1
    (Expansion.Substitutes.named unclosed bound inner
      (Expansion.Substitutes.plain scope spelling.ne_dollar.2))

theorem substitutes {settings : Settings} {path name text : String}
    (locates : Locates settings path name text) (metadata : Metadata)
    (unbound : settings.globals.find? name = none) :
    Expansion.Substitutes (fieldScope settings path metadata)
      (spelling.value name) (spelling.around (Text.encode text).toList)
      (max (0 + 1) 0) := by
  have bound : (fieldScope settings path metadata).find? name =
      some (Text.encode text) := by
    rw [Scope.find?, fieldScope, unbound]
    exact locates.find?_placedBindings metadata.bindings
  exact spelling.substitutes_of_bound locates.unclosed bound
    (Expansion.Substitutes.encoded _ text)

private theorem exists_meanings {settings : Settings} {path name text : String}
    (locates : Locates settings path name text) {metadata : Metadata}
    (unbound : settings.globals.find? name = none)
    (given : metadata.fields.find? .cflags =
      some (String.ofList (spelling.value name)))
    (others : ∀ field raw, metadata.fields.find? field = some raw →
      field ≠ .cflags → ∃ written,
        Expansion.Means (fieldScope settings path metadata) raw.toList
          written) :
    ∃ meaning : Field → List Char,
      meaning .cflags = spelling.around (Text.encode text).toList ∧
      ∀ field raw, metadata.fields.find? field = some raw →
        Expansion.Means (fieldScope settings path metadata) raw.toList
          (meaning field) := by
  have each : ∀ field, ∃ meaning,
      (field = .cflags →
        meaning = spelling.around (Text.encode text).toList) ∧
      ∀ raw, metadata.fields.find? field = some raw →
        Expansion.Means (fieldScope settings path metadata) raw.toList
          meaning := by
    intro field
    by_cases same : field = .cflags
    · subst same
      refine ⟨_, fun _ => rfl, fun raw found => ?_⟩
      rcases Option.some.inj (given.symm.trans found) with rfl
      rw [String.toList_ofList]
      exact ⟨_, spelling.substitutes locates metadata unbound, by decide⟩
    · cases found : metadata.fields.find? field with
      | none => exact ⟨[], fun equal => absurd equal same, nofun⟩
      | some raw =>
          rcases others field raw found same with ⟨meaning, means⟩
          refine ⟨meaning, fun equal => absurd equal same, ?_⟩
          intro other equal
          cases equal
          exact means
  choose meaning pinned means using each
  exact ⟨meaning, pinned _ rfl, means⟩

theorem unescape_includeFlag {directory : String}
    (unencoded : ∀ character ∈ directory.toList,
      Text.original? character = none) :
    Text.unescape
        ((includeFlag directory spelling.ending).flatMap Text.shield) =
      includeFlag directory spelling.ending := by
  have flag := spelling.plain_flag
  rw [spelling.flag] at flag
  apply Text.unescape_shield
  rw [includeFlag, List.forall_mem_append, List.forall_mem_append]
  exact ⟨fun _ member => (flag _ member).2, unencoded,
    fun _ member => (spelling.plain _ member).2⟩

end IncludeSpelling

end Package

/-- A file that gives a directory which it knows from its path to the compiler
can be loaded, given the budget. Its field has a single argument then, which
reads as the directory. -/
theorem located_path_is_one_argument {settings : Settings}
    {path name text source : String} {metadata : Metadata}
    (locates : Package.Locates settings path name text)
    (unbound : settings.globals.find? name = none)
    (unencoded : ∀ character ∈ (Location.directory path).toList,
      Text.original? character = none)
    (spelling : Package.IncludeSpelling)
    (parsed : Metadata.parse source path = .ok metadata)
    (complete : metadata.missingField? = none)
    (given : metadata.fields.find? .cflags =
      some (String.ofList (spelling.value name)))
    (others : ∀ field raw, metadata.fields.find? field = some raw →
      field ≠ .cflags → ∃ written,
        Expansion.Means (Package.fieldScope settings path metadata)
          raw.toList written) :
    ∃ (argument : String) (bytes : Nat),
      Text.unescape argument.toList =
        Package.includeFlag text spelling.ending ∧
      Argument.hasFlag argument 'I' = true ∧
      ∀ (realname : String) (before : Ledger),
        before.used + bytes ≤ before.budget.capacity →
        ∃ package between,
          Package.ofSource settings realname path source before =
            .ok package between ∧
          ∀ (list : ArgumentList) (filter : Filter), ∃ after,
            list.appendField package .cflags filter between =
              .ok (if filter.accepts argument then list.push argument
                else list) after := by
  let written := (Package.includeFlag text spelling.ending).flatMap Text.shield
  have spelled : written = ['-', 'I'] ++
      (text.toList.flatMap Text.shield ++ spelling.ending) :=
    spelling.flatMap_shield_includeFlag text
  rcases spelling.exists_meanings locates unbound given others with
    ⟨meaning, placed, means⟩
  refine ⟨String.ofList written, Package.meaningBytes settings path metadata
    meaning + Text.byteLength written, ?_, ?_, ?_⟩
  · rw [String.toList_ofList]
    apply spelling.unescape_includeFlag
    intro character member
    exact unencoded character (locates.subset_directory member)
  · simp [Argument.hasFlag, spelled]
  · intro realname before enough
    have room : before.used + Package.meaningBytes settings path metadata
        meaning ≤ before.budget.capacity := by omega
    rcases Package.ofSource_of_means parsed complete means realname room with
      ⟨package, between, loaded, fields, used, capacity⟩
    have left : between.used + Text.byteLength written ≤
        between.budget.capacity := by omega
    have part : Text.Part none (package.field .cflags).toList written := by
      rw [fields _ _ given, placed, String.toList_ofList]
      exact spelling.part text
    exact ⟨package, between, loaded, fun list filter =>
      list.appendField_of_part part (by simp [spelled]) filter left⟩

/-! ## A package that was moved -/

namespace MovedPackage

def settings : Settings :=
  FileTable.settings
    { Choices.none with switches := Switches.none.set .definePrefix true } []

def path : String := "/my (x) $/lib/pkgconfig/a.pc"

def source : String :=
  "prefix=/usr\nName:\nVersion:\nDescription:\n" ++
    "Cflags: -I\"$\x7bprefix\x7d/x\"\n"

def fields : List (Field × String) :=
  [(.name, ""), (.description, ""), (.version, ""),
    (.cflags, "-I\"$\x7bprefix\x7d/x\"")]

private theorem parse_source : ∃ metadata,
    Metadata.parse source path = .ok metadata ∧
      metadata.fields.entries = fields := by
  have read : (match Metadata.parse source path with
      | .ok metadata => some metadata.fields.entries
      | .error _ => none) = some fields := by
    cbv
  split at read
  next metadata parsed => exact ⟨metadata, parsed, Option.some.inj read⟩
  · cases read

def spelling : Package.IncludeSpelling where
  quote := some '\"'
  outside := ['-', 'I']
  inside := []
  within := ['/', 'x']
  beyond := []
  quoting := by simp [Text.isQuote, Text.quotes]
  flag := rfl
  plain := by
    simp only [Text.IsPlain, List.append_nil, List.forall_mem_cons]
    exact ⟨by decide, by decide, nofun⟩

theorem locates : Package.Locates settings path "prefix" "/my (x) $" :=
  .relocated (by decide) (by decide)

/-- The directory stays a single argument, in spite of the prefix in the file. -/
theorem moved_prefix_is_one_argument :
    ∃ (argument : String) (bytes : Nat),
      Text.unescape argument.toList = "-I/my (x) $/x".toList ∧
      ∀ (realname : String) (before : Ledger),
        before.used + bytes ≤ before.budget.capacity →
        ∃ package between,
          Package.ofSource settings realname path source before =
            .ok package between ∧
          ∀ list : ArgumentList, ∃ after,
            list.appendField package .cflags .any between =
              .ok (list.push argument) after := by
  rcases parse_source with ⟨metadata, parsed, entries⟩
  have found : ∀ field, metadata.fields.find? field =
      lookupEntry field fields := by
    intro field
    rw [Table.find?, entries]
  have given : metadata.fields.find? .cflags =
      some (String.ofList (spelling.value "prefix")) := by
    rw [found]
    decide
  have complete : metadata.missingField? = none := by
    simp only [Metadata.missingField?, Table.contains, found]
    decide
  have unencoded : ∀ character ∈ (Location.directory path).toList,
      Text.original? character = none := by
    have located : (Location.directory path).toList =
        "/my (x) $/lib/pkgconfig".toList := by decide
    rw [located]
    simp
    decide
  have empty : ∀ field raw, metadata.fields.find? field = some raw →
      field ≠ .cflags → raw = "" := by
    intro field raw listed other
    rw [found] at listed
    cases field <;> simp_all [fields, lookupEntry]
  have means : ∀ field raw, metadata.fields.find? field = some raw →
      field ≠ .cflags → ∃ written,
        Expansion.Means (Package.fieldScope settings path metadata)
          raw.toList written := by
    intro field raw listed other
    rw [empty field raw listed other]
    exact ⟨[], 0, .done, Nat.zero_le _⟩
  rcases located_path_is_one_argument locates (by decide) unencoded spelling
    parsed complete given means with ⟨argument, bytes, reads, _, loads⟩
  refine ⟨argument, bytes, reads, fun realname before enough => ?_⟩
  rcases loads realname before enough with ⟨package, between, loaded, appends⟩
  exact ⟨package, between, loaded, fun list => appends list .any⟩

end MovedPackage

end PkgConfig
