import PkgConfig.Proofs.ArgumentSplitting
import PkgConfig.Proofs.Consistency
import PkgConfig.Proofs.Evaluation
import PkgConfig.Proofs.ExpansionOrder
import PkgConfig.Proofs.FirstSeen
import PkgConfig.Proofs.Location
import PkgConfig.Proofs.PlacedPaths
import PkgConfig.Proofs.ValidFiles

namespace PkgConfig

/-! A package that requires its neighbour by a path in its own directory. The
directory is encoded for the reference, but the path that comes out is looked for
as it is written there. -/

/-! ## Discoveries -/

private theorem Resolve.bind_of_ok {first : Resolve α} {second : α → Resolve β}
    {value : α} {before between : Session}
    (ran : first before = .ok value between) :
    (first >>= second) before = second value between := by
  simp only [bind, EStateM.bind, ran]

namespace RecursiveWalk

private def readRequirements (settings : Settings) (opened depth : Nat)
    (marks : Marks) (package : Package) : Resolve Unit := do
  if Walk.readsRequirements settings (depth + 1) then
    readNested (readToken settings (opened + 2) (depth + 1) marks.indirect)
      (Text.tokens (package.field .requires))
    readNested (readToken settings (opened + 1) (depth + 1) .none)
      (Text.tokens (package.field .requiresPrivate))

private theorem discover_eq_of_found {settings : Settings} {opened depth : Nat}
    {marks : Marks} {token : String} {package : Package}
    {resolution : Resolution} {before after : Ledger}
    (found : Package.find settings token before = .ok package after)
    (room : opened + 2 ≤ maxFrames) :
    discover settings opened depth marks token ⟨resolution, before⟩ =
      (readRequirements settings opened depth marks package >>= fun _ =>
          pure ⟨some resolution.catalogue.size, none⟩)
        ⟨{ resolution with
            catalogue := resolution.catalogue.enrol package marks }, after⟩ := by
  have ran : Resolve.ofRun (Package.find settings token) ⟨resolution, before⟩ =
      .ok package ⟨resolution, after⟩ := by
    rw [Resolve.ofRun, found]
  rw [discover, Resolve.bind_of_ok ran, Resolve.catalogue_bind,
    readRequirements]
  cases reads : Walk.readsRequirements settings (depth + 1) with
  | true =>
      simp only [if_true, room, dif_pos, bind_assoc,
        Resolve.setCatalogue_setCatalogue]
      rfl
  | false =>
      simp only [Bool.false_eq_true, if_false,
        Resolve.setCatalogue_setCatalogue, pure_bind]
      rfl

private theorem readToken_eq_discover {settings : Settings} {opened depth : Nat}
    {marks : Marks} {position : Position} {token : String} {before : Session}
    (settled : position.pending = none)
    (names : Comparator.ofToken? token = none)
    (absent : before.resolution.catalogue.find? (Location.realname token) =
      none) :
    readToken settings opened depth marks position token before =
      discover settings opened depth marks token before := by
  rw [readToken]
  simp only [settled, names, Resolve.catalogue_bind, absent]

private theorem readNested_new {settings : Settings} {opened depth : Nat}
    {marks : Marks} {token : String} {package : Package}
    {resolution : Resolution} {before after : Ledger}
    (names : Comparator.ofToken? token = none)
    (absent : resolution.catalogue.find? (Location.realname token) = none)
    (found : Package.find settings token before = .ok package after)
    (room : opened + 2 ≤ maxFrames)
    (requires : ∀ field ∈ Field.requirements,
      Text.tokens (package.field field) = []) :
    readNested (readToken settings opened depth marks) [token]
        ⟨resolution, before⟩ =
      .ok () ⟨{ resolution with
        catalogue := resolution.catalogue.enrol package marks }, after⟩ := by
  have nothing : readRequirements settings opened depth marks package =
      pure () := by
    rw [readRequirements, requires _ Field.requires_mem_requirements,
      requires _ Field.requiresPrivate_mem_requirements]
    split
    · rfl
    · rfl
  have read : readToken settings opened depth marks .start token
      ⟨resolution, before⟩ = .ok ⟨some resolution.catalogue.size, none⟩
        ⟨{ resolution with
          catalogue := resolution.catalogue.enrol package marks }, after⟩ := by
    rw [readToken_eq_discover rfl names absent,
      discover_eq_of_found found room, nothing]
    rfl
  rw [readNested, List.foldlM_cons, bind_assoc, Resolve.bind_of_ok read]
  rfl

end RecursiveWalk

private theorem Resolve.push_first_eq_ok_iff {settings : Settings}
    {name : String}
    {package : Package} {before ledger : Ledger} {final : Session}
    (single : Text.IsToken name) (names : Comparator.ofToken? name = none)
    (found : Package.find settings name before = .ok package ledger) :
    push settings name ⟨.empty, before⟩ = .ok () final ↔
      ∃ after,
        RecursiveWalk.readRequirements settings 1 0 .named package
          ⟨⟨Catalogue.empty.enrol package .named, .start⟩, ledger⟩ =
            .ok () after ∧
        final = after.movedTo ⟨some 0, none⟩ := by
  have read : RecursiveWalk.readToken settings 1 0 .named .start name
      ⟨.empty, before⟩ =
        (RecursiveWalk.readRequirements settings 1 0 .named package >>=
            fun _ => pure ⟨some 0, none⟩)
          ⟨⟨Catalogue.empty.enrol package .named, .start⟩, ledger⟩ :=
    (RecursiveWalk.readToken_eq_discover rfl names rfl).trans
      (RecursiveWalk.discover_eq_of_found found (by decide))
  have start : Resolution.empty.position = .start := rfl
  rw [push_eq_pushTokens, single.tokens_eq, pushTokens]
  simp only [start, List.foldlM_cons, List.foldlM_nil, read, bind,
    EStateM.bind]
  cases RecursiveWalk.readRequirements settings 1 0 .named package
      ⟨⟨Catalogue.empty.enrol package .named, .start⟩, ledger⟩ with
  | error error after => simp
  | ok _ after =>
      constructor
      · intro pushed
        cases pushed
        exact ⟨after, rfl, rfl⟩
      · rintro ⟨_, same, moved⟩
        cases same
        cases moved
        rfl

namespace Catalogue

private theorem exposed_mergeMarks {catalogue : Catalogue}
    (exposed : ∀ id package, catalogue.package? id = some package →
      package.marks.exposed = true) (id : Nat) (marks : Marks) :
    ∀ other package,
      (catalogue.mergeMarks id marks).package? other = some package →
        package.marks.exposed = true := by
  intro other package held
  rw [package?_mergeMarks] at held
  split at held
  · rcases Option.map_eq_some_iff.mp held with ⟨earlier, present, same⟩
    cases same
    simp [Marks.union, exposed other earlier present]
  · exact exposed other package held

private theorem size_mergeMarks (catalogue : Catalogue) (id : Nat)
    (marks : Marks) :
    (catalogue.mergeMarks id marks).size = catalogue.size := by
  rw [size, packages_mergeMarks]
  simp [mark, size]

end Catalogue

/-- As long as everything known is exposed, nothing is read again. So if a list
adds anything, the first package that it adds is loaded for one of its own
tokens. -/
theorem Reads.exists_loading {settings : Settings} {opened depth : Nat}
    {marks : Marks} {position final : Position} {tokens : List String}
    {before after : Catalogue}
    (reads : Reads settings opened depth marks position tokens before final
      after)
    (exposed : ∀ id package, before.package? id = some package →
      package.marks.exposed = true)
    (grown : after.realnames ≠ before.realnames) :
    ∃ token ∈ tokens, ∃ package marks,
      Package.Loads settings token package ∧
      after.package? before.size = some (package.mark marks) := by
  induction reads with
  | done => exact absurd rfl grown
  | version _ _ _ rest =>
      rcases rest exposed grown with ⟨token, member, added⟩
      exact ⟨token, List.mem_cons_of_mem _ member, added⟩
  | operator _ _ _ _ rest =>
      rcases rest exposed grown with ⟨token, member, added⟩
      exact ⟨token, List.mem_cons_of_mem _ member, added⟩
  | known _ _ _ _ _ rest =>
      rw [Catalogue.realnames_mergeMarks] at rest
      rcases rest (Catalogue.exposed_mergeMarks exposed _ _) grown with
        ⟨token, member, package, more, loads, held⟩
      rw [Catalogue.size_mergeMarks] at held
      exact ⟨token, List.mem_cons_of_mem _ member, package, more, loads, held⟩
  | promoted _ _ found exposes =>
      rcases Catalogue.package?_of_find? found with ⟨package, held, _⟩
      simp [Catalogue.exposes, Catalogue.marksOf, held,
        exposed _ package held] at exposes
  | skipped _ _ _ loads _ restReads _ =>
      rcases restReads.extended _ _ (Catalogue.package?_enrol_size _ _ _) with
        ⟨more, held⟩
      rw [Package.mark_mark] at held
      exact ⟨_, List.mem_cons_self, _, _, loads, held⟩
  | loaded _ _ _ loads _ _ publicReads _ privateReads _ restReads =>
      have extended := restReads.extended.trans
        (privateReads.extended.trans publicReads.extended)
      rcases extended _ _ (Catalogue.package?_enrol_size _ _ _) with
        ⟨more, held⟩
      rw [Package.mark_mark] at held
      exact ⟨_, List.mem_cons_self, _, _, loads, held⟩

/-! ## The reference -/

namespace Text

private theorem encodeCharacter_eq_self_iff {character : Char} :
    encodeCharacter character = character ↔ isGuarded character = false := by
  constructor
  · intro same
    rw [← same]
    exact isGuarded_encodeCharacter character
  · exact encodeCharacter_of_unguarded

private theorem encode_eq_self_iff {text : String} :
    encode text = text ↔
      ∀ character ∈ text.toList, isGuarded character = false := by
  have each := @List.map_inj_left _ _ text.toList encodeCharacter id
  rw [List.map_id] at each
  rw [← String.toList_inj, encode, String.toList_ofList, each]
  exact forall₂_congr fun _ _ => encodeCharacter_eq_self_iff

private theorem length_encode (text : String) :
    (encode text).toList.length = text.toList.length := by
  simp [encode]

end Text

def siblingReference (name : String) : String :=
  "$\x7bpcfiledir\x7d/" ++ name ++ ".pc"

private theorem siblingReference_means {settings : Settings}
    (directory : String) {name sibling : String} (metadata : Metadata)
    (unbound : settings.globals.find? "pcfiledir" = none)
    (flat : Location.IsFlat name)
    (literal : Expansion.IsLiteral ("/" ++ sibling ++ ".pc").toList) :
    Expansion.Means
      (Package.fieldScope settings (Location.metadataFile directory name)
        metadata)
      (siblingReference sibling).toList
      (Location.metadataFile (Text.encode directory) sibling).toList := by
  have locates : Package.Locates settings
      (Location.metadataFile directory name) "pcfiledir" directory := by
    have placed := @Package.Locates.fileDirectory settings
      (Location.metadataFile directory name)
    rwa [(Location.parts_metadataFile directory flat).1] at placed
  have bound : (Package.fieldScope settings
      (Location.metadataFile directory name) metadata).find? "pcfiledir" =
        some (Text.encode directory) := by
    rw [Scope.find?, Package.fieldScope, unbound]
    exact locates.find?_placedBindings metadata.bindings
  have whole := Expansion.Substitutes.named locates.unclosed bound
    (.encoded _ directory) (literal.substitutes _)
  refine ⟨max (0 + 1) 0, ?_, by decide⟩
  simpa [siblingReference, Location.metadataFile] using whole

/-! ## Names of files -/

namespace Location

/-- The file of a name is looked for in a directory for the sake of this name
only, and not for that of a path. -/
theorem eq_of_metadataFile_eq {front other name token : String}
    (nonempty : name ≠ "") (flat : IsFlat name)
    (same : metadataFile front name = metadataFile other token)
    (named : realname token = name) : token = name := by
  cases metadata : isMetadataFile token with
  | false => rwa [realname, if_neg (by simp [metadata])] at named
  | true =>
      have files := congrArg fileName same
      rw [fileName_metadataFile, fileName_metadataFile,
        fileName_of_isFlat flat] at files
      have file : name = fileName token := String.append_left_inj _ |>.mp files
      rw [realname, if_pos metadata, ← file] at named
      have shorter := congrArg (·.toList.length) named
      have present : name.toList ≠ [] := mt String.toList_eq_nil_iff.mp nonempty
      have positive := List.length_pos_iff.mpr present
      simp only [String.toList_ofList, List.length_dropLast] at shorter
      omega

end Location

private theorem Comparator.ofToken?_suffixed (front : String) :
    ofToken? (front ++ ".pc") = none := by
  apply List.find?_eq_none.mpr
  intro comparator _ same
  have lengths := congrArg (·.toList.length) (eq_of_beq same)
  cases comparator <;> simp [text, Location.suffix] at lengths

/-! ## Siblings -/

/-- A package and its sibling, which have valid files in the first directory that
is searched. The one requires the other by its path there, and neither requires
anything else. -/
structure Siblings (settings : Settings) (directory name sibling : String) where
  others : List String
  first : settings.searchPath.directories = directory :: others
  unbound : settings.globals.find? "pcfiledir" = none
  single : Text.IsToken name
  flat : Location.IsFlat name
  settled : Comparator.ofToken? name = none
  ordinary : Location.isMetadataFile name = false
  external : name ≠ Builtin.name
  siblingSingle : Text.IsToken sibling
  siblingFlat : Location.IsFlat sibling
  siblingLiteral : Expansion.IsLiteral ("/" ++ sibling ++ ".pc").toList
  different : name ≠ sibling
  file : Package.ValidFile settings (Location.metadataFile directory name)
  siblingFile :
    Package.ValidFile settings (Location.metadataFile directory sibling)
  requires : file.metadata.fields.find? .requires =
    some (siblingReference sibling)
  requiresPrivate :
    Text.tokens ((file.package name).field .requiresPrivate) = []
  siblingRequires : ∀ field ∈ Field.requirements,
    Text.tokens ((siblingFile.package sibling).field field) = []

/-- The package is resolved together with its sibling, which is loaded from the
directory of both. -/
def ResolvesSiblings (settings : Settings) (directory name sibling : String)
    (before : Ledger) : Prop :=
  ∃ after, Resolve.push settings name ⟨.empty, before⟩ = .ok () after ∧
    after.resolution.catalogue.realnames = [name, sibling] ∧
    ∃ package, after.resolution.catalogue.lookup? sibling = some package ∧
      package.path = Location.metadataFile directory sibling

namespace Siblings

variable {settings : Settings} {directory name sibling : String}
  (siblings : Siblings settings directory name sibling)

def requirement (_ : Siblings settings directory name sibling) : String :=
  Location.metadataFile (Text.encode directory) sibling

private theorem field_requires :
    (siblings.file.package name).field .requires = siblings.requirement := by
  have given := siblings.file.means _ _ siblings.requires
  have means := siblingReference_means directory siblings.file.metadata
    siblings.unbound siblings.flat siblings.siblingLiteral
  rw [Package.ValidFile.package, Package.field_ofMeaning,
    if_pos (by simp [Table.contains, siblings.requires]),
    given.unique means, String.ofList_toList]
  rfl

def begun : Catalogue :=
  Catalogue.empty.enrol (siblings.file.package name) .named

private theorem realnames_begun : siblings.begun.realnames = [name] := by
  rw [begun, Catalogue.realnames_enrol]
  rfl

def resolved : Catalogue :=
  siblings.begun.enrol (siblings.siblingFile.package sibling) ⟨false, true⟩

private theorem realnames_resolved :
    siblings.resolved.realnames = [name, sibling] := by
  rw [resolved, Catalogue.realnames_enrol, siblings.realnames_begun]
  rfl

private theorem readRequirements_eq :
    RecursiveWalk.readRequirements settings 1 0 .named
        (siblings.file.package name) =
      if Walk.readsRequirements settings 1 then
        RecursiveWalk.readNested
          (RecursiveWalk.readToken settings 3 1 ⟨false, true⟩)
          (Text.tokens siblings.requirement)
      else pure () := by
  have nothing : RecursiveWalk.readNested
      (RecursiveWalk.readToken settings 2 1 .none) [] = pure () := rfl
  rw [RecursiveWalk.readRequirements, siblings.field_requires,
    siblings.requiresPrivate, nothing, bind_pure_unit]
  rfl

/-! ## Resolved siblings -/

private theorem isToken_path
    (siblings : Siblings settings directory name sibling)
    (unbroken : ∀ character ∈ directory.toList,
      Text.separatesTokens character = false) :
    Text.IsToken (Location.metadataFile directory sibling) where
  nonempty := by
    intro empty
    have characters := congrArg String.toList empty
    simp [Location.metadataFile] at characters
  unbroken := by
    have slash : ∀ character ∈ "/".toList,
        Text.separatesTokens character = false := by
      simp
      decide
    have suffix : ∀ character ∈ ".pc".toList,
        Text.separatesTokens character = false := by
      simp [Location.suffix]
      decide
    simp only [Location.metadataFile, String.toList_append]
    exact List.forall_mem_append.mpr ⟨List.forall_mem_append.mpr
      ⟨List.forall_mem_append.mpr ⟨unbroken, slash⟩,
        siblings.siblingSingle.unbroken⟩, suffix⟩

private theorem resolves (reads : Walk.readsRequirements settings 1 = true)
    (clear : ∀ character ∈ directory.toList,
      Text.isGuarded character = false ∧ character ≠ ',')
    {before : Ledger}
    (enough : before.used +
      (siblings.file.bytes + siblings.siblingFile.bytes) ≤
        before.budget.capacity) :
    ResolvesSiblings settings directory name sibling before := by
  have required : siblings.requirement =
      Location.metadataFile directory sibling := by
    rw [requirement, Text.encode_eq_self_iff.mpr fun character member =>
      (clear character member).1]
  have single := siblings.isToken_path fun character member => by
    have plain := (clear character member).1
    simp only [Text.isGuarded, Bool.or_eq_false_iff] at plain
    simp [Text.separatesTokens, clear character member, plain]
  rcases Package.ValidFile.find_of_name siblings.first siblings.file
    siblings.ordinary siblings.external
    (Nat.le_trans (by omega) enough) with ⟨ledger, found, used, capacity⟩
  have room : ledger.used + siblings.siblingFile.bytes ≤
      ledger.budget.capacity := by
    omega
  rcases siblings.siblingFile.find_of_path
    (Location.isMetadataFile_metadataFile directory sibling) room with
    ⟨ledger', found', _, _⟩
  have named := Location.realname_metadataFile directory siblings.siblingFlat
  rw [named] at found'
  have absent : siblings.begun.find?
      (Location.realname (Location.metadataFile directory sibling)) = none := by
    rw [named, Catalogue.find?_eq_none_iff, siblings.realnames_begun]
    simpa using Ne.symm siblings.different
  have names : Comparator.ofToken? (Location.metadataFile directory sibling) =
      none := Comparator.ofToken?_suffixed _
  have nested := @RecursiveWalk.readNested_new settings 3 1 ⟨false, true⟩ _ _
    ⟨siblings.begun, .start⟩ _ _ names absent found' (by decide)
    siblings.siblingRequires
  have list : Text.tokens siblings.requirement =
      [Location.metadataFile directory sibling] := by
    rw [required, single.tokens_eq]
  have read : RecursiveWalk.readRequirements settings 1 0 .named
      (siblings.file.package name) ⟨⟨siblings.begun, .start⟩, ledger⟩ =
        .ok () ⟨⟨siblings.resolved, .start⟩, ledger'⟩ := by
    rw [siblings.readRequirements_eq, if_pos reads, list]
    exact nested
  have distinct : siblings.resolved.realnames.Nodup := by
    rw [siblings.realnames_resolved]
    simpa using siblings.different
  have held := Catalogue.lookup?_of_package? distinct
    (Catalogue.package?_enrol_size _ _ _)
  exact ⟨_, (Resolve.push_first_eq_ok_iff siblings.single siblings.settled
    found).mpr ⟨_, read, rfl⟩, siblings.realnames_resolved, _, held, rfl⟩

/-- What is loaded from the file of the sibling, and not by its name, is asked
for by the path of this file, letter by letter. -/
theorem clear_of_loads (whole : sibling ∉ Text.tokens siblings.requirement)
    {token : String} {package : Package}
    (listed : token ∈ Text.tokens siblings.requirement)
    (loads : Package.Loads settings token package)
    (named : package.realname = sibling)
    (place : package.path = Location.metadataFile directory sibling) :
    ∀ character ∈ directory.toList,
      Text.isGuarded character = false ∧ character ≠ ',' := by
  have asked : Location.realname token = sibling :=
    loads.realname_eq.1.symm.trans named
  have other : token ≠ sibling := ne_of_mem_of_not_mem listed whole
  have itself : token = Location.metadataFile directory sibling := by
    rcases loads.path_cases with ⟨_, same⟩ | builtin | among
    · exact same.symm.trans place
    · subst builtin
      exact absurd asked other
    · rcases List.mem_map.mp among with ⟨front, _, same⟩
      exact absurd (Location.eq_of_metadataFile_eq
        siblings.siblingSingle.nonempty siblings.siblingFlat
        (place.symm.trans same.symm) asked) other
  rcases Text.of_mem_tokens listed with ⟨single, part⟩
  have same : token.toList = siblings.requirement.toList := by
    apply part.eq_of_length
    simp [itself, requirement, Location.metadataFile, Text.length_encode]
  have unencoded : Text.encode directory = directory := by
    have directories := congrArg Location.directory (String.toList_inj.mp same)
    rw [itself, requirement, (Location.parts_metadataFile _
      siblings.siblingFlat).1, (Location.parts_metadataFile _
      siblings.siblingFlat).1] at directories
    exact directories.symm
  intro character member
  refine ⟨Text.encode_eq_self_iff.mp unencoded character member, ?_⟩
  have inside : character ∈ token.toList := by
    simp [itself, Location.metadataFile, member]
  rintro rfl
  exact absurd (single.unbroken _ inside) (by decide)

private theorem clear_of_resolves
    (whole : sibling ∉ Text.tokens siblings.requirement) {before : Ledger}
    (enough : before.used + siblings.file.bytes ≤ before.budget.capacity)
    (resolves : ResolvesSiblings settings directory name sibling before) :
    Walk.readsRequirements settings 1 = true ∧
      ∀ character ∈ directory.toList,
        Text.isGuarded character = false ∧ character ≠ ',' := by
  rcases resolves with ⟨final, pushed, realnames, package, held, place⟩
  rcases Package.ValidFile.find_of_name siblings.first siblings.file
    siblings.ordinary siblings.external enough with ⟨ledger, found, _⟩
  rcases (Resolve.push_first_eq_ok_iff siblings.single siblings.settled
    found).mp pushed with ⟨after, read, rfl⟩
  have names : after.resolution.catalogue.realnames = [name, sibling] :=
    realnames
  rw [siblings.readRequirements_eq] at read
  split at read
  next reads =>
    refine ⟨reads, ?_⟩
    rcases RecursiveWalk.readNested_eq_ok read with ⟨ending, nested, _⟩
    have derived := RecursiveWalk.reads_of_foldlM nested
    have exposed : ∀ id package, siblings.begun.package? id = some package →
        package.marks.exposed = true := by
      intro id package held
      rw [begun, Catalogue.package?_enrol] at held
      split at held
      · cases held
        rfl
      · cases held
    have grown : after.resolution.catalogue.realnames ≠
        siblings.begun.realnames := by
      simp [names, siblings.realnames_begun]
    rcases derived.exists_loading exposed grown with
      ⟨token, listed, loaded, marks, loads, second⟩
    have named : loaded.realname = sibling := by
      have shown := Catalogue.getElem?_realnames after.resolution.catalogue 1
      rw [names] at shown
      have same := shown.trans (congrArg (Option.map Package.realname) second)
      exact (Option.some.inj same).symm
    have distinct : after.resolution.catalogue.realnames.Nodup := by
      rw [names]
      simpa using siblings.different
    have present := Catalogue.lookup?_of_package? distinct second
    rw [Package.realname_mark, named] at present
    cases held.symm.trans present
    exact siblings.clear_of_loads whole listed loads named place
  next closed =>
    cases read
    have alone := siblings.realnames_begun
    simp [begun, names] at alone

private theorem clear_of_some_budget
    (whole : sibling ∉ Text.tokens siblings.requirement)
    (resolves : ∃ bytes, ∀ before : Ledger,
      before.used + bytes ≤ before.budget.capacity →
        ResolvesSiblings settings directory name sibling before) :
    Walk.readsRequirements settings 1 = true ∧
      ∀ character ∈ directory.toList,
        Text.isGuarded character = false ∧ character ≠ ',' := by
  rcases resolves with ⟨bytes, resolves⟩
  let before := Ledger.fresh (bytes + siblings.file.bytes)
  have room : before.used + bytes ≤ before.budget.capacity := by
    change 0 + bytes ≤ bytes + siblings.file.bytes
    omega
  have enough : before.used + siblings.file.bytes ≤ before.budget.capacity := by
    change 0 + siblings.file.bytes ≤ bytes + siblings.file.bytes
    omega
  exact siblings.clear_of_resolves whole enough (resolves before room)

end Siblings

/-- The sibling is resolved for every budget that is large enough exactly if
requirements are read and no character of the directory is encoded or separates
requirements. What is left open are directories in which the name of the sibling
stands on its own, between commas. -/
theorem resolves_siblings_iff {settings : Settings}
    {directory name sibling : String}
    (siblings : Siblings settings directory name sibling)
    (whole : sibling ∉ Text.tokens
      (Location.metadataFile (Text.encode directory) sibling)) :
    (∃ bytes, ∀ before : Ledger,
        before.used + bytes ≤ before.budget.capacity →
          ResolvesSiblings settings directory name sibling before) ↔
      Walk.readsRequirements settings 1 = true ∧
        ∀ character ∈ directory.toList,
          Text.isGuarded character = false ∧ character ≠ ',' := by
  constructor
  · exact siblings.clear_of_some_budget whole
  · intro ⟨reads, clear⟩
    exact ⟨_, fun before enough => siblings.resolves reads clear enough⟩

/-! A package `p` that requires its sibling `q`, in a directory of any name. -/

namespace NamedDirectory

def complete : String := "Name:\nVersion:\nDescription:\n"

def requiring : String :=
  complete ++ "Requires: " ++ siblingReference "q" ++ "\n"

def settings (directory : String) : Settings :=
  { Choices.none with fixedPath := some directory }.settings .empty
    (FileTable.loader (Table.ofList
      [(Location.metadataFile directory "p", requiring),
        (Location.metadataFile directory "q", complete)]))

def meaning (requirement : String) : Field → List Char
  | .requires => requirement.toList
  | _ => []

private theorem exists_validFile {settings : Settings} {path source : String}
    {entries : List (Field × String)} {requirement : String}
    (loads : settings.loader.load path = .contents source)
    (read : (match Metadata.parse source path with
      | .ok metadata => some metadata.fields.entries
      | .error _ => none) = some entries)
    (given : ∀ field ∈ Field.required, (lookupEntry field entries).isSome)
    (means : ∀ metadata, ∀ entry ∈ entries,
      Expansion.Means (Package.fieldScope settings path metadata)
        entry.2.toList (meaning requirement entry.1)) :
    ∃ file : Package.ValidFile settings path,
      file.metadata.fields.entries = entries ∧
        file.meaning = meaning requirement := by
  split at read
  next metadata parsed =>
    cases read
    have complete : metadata.missingField? = none := by
      apply List.find?_eq_none.mpr
      intro field required
      simpa [Table.contains, Table.find?, Option.isSome_iff_ne_none]
        using given field required
    exact ⟨⟨source, metadata, meaning requirement, loads, parsed, complete,
      fun field raw found => means metadata (field, raw)
        ((Table.lookupEntry_eq_some_iff metadata.fields.ascending).mp found)⟩,
      rfl, rfl⟩
  · cases read

private theorem parse_requiring (path : String) :
    (match Metadata.parse requiring path with
      | .ok metadata => some metadata.fields.entries
      | .error _ => none) =
        some [(.name, ""), (.description, ""), (.version, ""),
          (.requires, siblingReference "q")] := by
  cbv

private theorem parse_complete (path : String) :
    (match Metadata.parse complete path with
      | .ok metadata => some metadata.fields.entries
      | .error _ => none) =
        some [(.name, ""), (.description, ""), (.version, "")] := by
  cbv

private theorem means_nothing (scope : Scope) : Expansion.Means scope "".toList
    [] :=
  ⟨0, .done, Nat.zero_le _⟩

theorem literal : Expansion.IsLiteral ("/" ++ "q" ++ ".pc").toList := by
  apply Expansion.IsLiteral.of_plain
  simp

private theorem isToken_name : Text.IsToken "p" where
  nonempty := by decide
  unbroken := by simp; decide

private theorem isToken_sibling : Text.IsToken "q" where
  nonempty := by decide
  unbroken := by simp; decide

private theorem exists_siblings {directory : String}
    (directories : (settings directory).searchPath.directories = [directory])
    (unbound : (settings directory).globals.find? "pcfiledir" = none)
    (loads : (settings directory).loader.load
      (Location.metadataFile directory "p") = .contents requiring)
    (loads' : (settings directory).loader.load
      (Location.metadataFile directory "q") = .contents complete) :
    Nonempty (Siblings (settings directory) directory "p" "q") := by
  have flat : Location.IsFlat "p" ∧ Location.IsFlat "q" := by
    simp [Location.IsFlat]
    decide
  rcases @exists_validFile _ _ _ _
    (Location.metadataFile (Text.encode directory) "q") loads
    (parse_requiring _) (by decide) fun metadata => by
      simp only [List.forall_mem_cons]
      exact ⟨means_nothing _, means_nothing _, means_nothing _,
        siblingReference_means directory metadata unbound flat.1 literal,
        List.forall_mem_nil _⟩ with
    ⟨file, entries, meant⟩
  rcases @exists_validFile _ _ _ _ "" loads' (parse_complete _) (by decide)
    fun metadata => by
      simp only [List.forall_mem_cons]
      exact ⟨means_nothing _, means_nothing _, means_nothing _,
        List.forall_mem_nil _⟩ with
    ⟨file', _, meant'⟩
  exact ⟨{
    others := []
    first := directories
    unbound := unbound
    single := isToken_name
    flat := flat.1
    settled := by decide
    ordinary := by decide
    external := by decide
    siblingSingle := isToken_sibling
    siblingFlat := flat.2
    siblingLiteral := literal
    different := by decide
    file := file
    siblingFile := file'
    requires := by
      rw [Table.find?, entries]
      cbv
    requiresPrivate := by
      rw [file.field_package_of_nil (by rw [meant]; rfl)]
      decide
    siblingRequires := by
      intro field _
      rw [file'.field_package_of_nil (by rw [meant']; cases field <;> rfl)]
      decide }⟩

/-- No budget is large enough when the name of the directory has a space in
it. -/
theorem sibling_not_resolved :
    ¬ ∃ bytes, ∀ before : Ledger,
      before.used + bytes ≤ before.budget.capacity →
        ResolvesSiblings (settings "/my dir") "/my dir" "p" "q" before := by
  intro resolves
  have ⟨siblings⟩ := @exists_siblings "/my dir" (by cbv) (by cbv)
    (by cbv) (by cbv)
  have whole : "q" ∉ Text.tokens siblings.requirement := by
    have tokens : Text.tokens (Location.metadataFile (Text.encode "/my dir")
        "q") = [Location.metadataFile (Text.encode "/my dir") "q"] := by
      cbv
    rw [Siblings.requirement, tokens]
    decide
  have clear := siblings.clear_of_some_budget whole resolves
  have blank := (clear.2 ' ' (by simp)).1
  exact absurd blank (by decide)

theorem sibling_resolved :
    ∃ bytes, ∀ before : Ledger,
      before.used + bytes ≤ before.budget.capacity →
        ResolvesSiblings (settings "/lib") "/lib" "p" "q" before := by
  have ⟨siblings⟩ := @exists_siblings "/lib" (by cbv) (by cbv) (by cbv)
    (by cbv)
  have whole : "q" ∉ Text.tokens
      (Location.metadataFile (Text.encode "/lib") "q") := by
    have tokens : Text.tokens (Location.metadataFile (Text.encode "/lib")
        "q") = ["/lib/q.pc"] := by
      cbv
    rw [tokens]
    decide
  have reads : Walk.readsRequirements (settings "/lib") 1 = true := by
    cbv
  have clear : ∀ character ∈ "/lib".toList,
      Text.isGuarded character = false ∧ character ≠ ',' := by
    simp
    decide
  exact (resolves_siblings_iff siblings whole).mpr ⟨reads, clear⟩

end NamedDirectory

end PkgConfig
