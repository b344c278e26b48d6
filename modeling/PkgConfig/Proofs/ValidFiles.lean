import PkgConfig.Proofs.FieldMeanings
import PkgConfig.Proofs.Reads

namespace PkgConfig

/-! Where packages come from: the files that can be loaded, and the places where
they are looked for. -/

/-! ## Where packages are found -/

namespace Package

private theorem path_of_locateAmong? {settings : Settings} {token : String}
    {candidates : List String} {located : Located} {before after : Ledger}
    (found : locateAmong? settings token candidates before =
      .ok (some located) after) : located.path ∈ candidates := by
  induction candidates generalizing before with
  | nil => cases found
  | cons candidate rest induction =>
      rcases Run.bind_eq_ok_iff.mp found with ⟨_, _, _, found⟩
      rcases Run.bind_eq_ok_iff.mp found with ⟨source, _, _, found⟩
      cases source with
      | none => exact List.mem_cons_of_mem _ (induction found)
      | some source =>
          cases found
          exact List.mem_cons_self

theorem Loads.path_cases {settings : Settings} {token : String}
    {package : Package} (loads : Loads settings token package) :
    Location.isMetadataFile token = true ∧ package.path = token ∨
      token = Builtin.name ∨
      package.path ∈ settings.searchPath.candidates token := by
  have byName : ∀ {located before after},
      locateByName? settings token before = .ok (some located) after →
        token = Builtin.name ∨
          located.path ∈ settings.searchPath.candidates token := by
    intro located before after found
    unfold locateByName? at found
    split at found
    next builtin => exact .inl builtin
    · exact .inr (path_of_locateAmong? found)
  rcases loads with ⟨before, after, found⟩
  rcases Run.bind_eq_ok_iff.mp found with ⟨located?, between, place, made⟩
  cases located? with
  | none => cases made
  | some located =>
      rw [(ofSource_used made).2.1]
      unfold locate? at place
      split at place
      next file =>
        rcases Run.bind_eq_ok_iff.mp place with ⟨_, _, _, place⟩
        rcases Run.bind_eq_ok_iff.mp place with ⟨source, _, _, place⟩
        cases source with
        | none => exact .inr (byName place)
        | some source =>
            cases place
            exact .inl ⟨file, rfl⟩
      · exact .inr (byName place)

end Package

/-! ## Valid files -/

namespace Package

/-- A complete file whose fields all mean something. -/
structure ValidFile (settings : Settings) (path : String) where
  source : String
  metadata : Metadata
  meaning : Field → List Char
  loads : settings.loader.load path = .contents source
  parsed : Metadata.parse source path = .ok metadata
  complete : metadata.missingField? = none
  means : ∀ field raw, metadata.fields.find? field = some raw →
    Expansion.Means (fieldScope settings path metadata) raw.toList
      (meaning field)

namespace ValidFile

section

variable {settings : Settings} {path : String}
  (file : ValidFile settings path)

def package (realname : String) : Package :=
  ofMeaning settings realname path file.metadata file.meaning

theorem field_package_of_nil {field : Field}
    (nothing : file.meaning field = []) (realname : String) :
    (file.package realname).field field = "" := by
  rw [package, field_ofMeaning, nothing]
  split
  · rfl
  · rfl

def bytes : Nat :=
  file.source.utf8ByteSize +
    meaningBytes settings path file.metadata file.meaning

private theorem read?_eq (name : String) {before : Ledger}
    (enough : before.used + file.bytes ≤ before.budget.capacity) :
    ∃ between, read? settings name path before = .ok (some file.source) between ∧
      before.Charged file.source.utf8ByteSize between := by
  have fits : before.used + file.source.utf8ByteSize ≤
      before.budget.capacity := by
    rw [bytes] at enough
    omega
  rcases Ledger.Charged.exists_of_fits fits with ⟨between, charged⟩
  refine ⟨between, ?_, charged⟩
  simp only [read?, file.loads]
  exact Run.bind_eq_ok_iff.mpr
    ⟨(), between, Run.charge_eq_ok_iff.mpr charged, rfl⟩

private theorem find_of_located {token : String} {before between : Ledger}
    (enough : before.used + file.bytes ≤ before.budget.capacity)
    (located : locate? settings token before =
      .ok (some ⟨path, file.source⟩) between)
    (used : between.used = before.used + file.source.utf8ByteSize)
    (capacity : between.budget.capacity = before.budget.capacity) :
    ∃ after,
      find settings token before =
        .ok (file.package (Location.realname token)) after ∧
      after.used = before.used + file.bytes ∧
      after.budget.capacity = before.budget.capacity := by
  have fits : between.used +
      meaningBytes settings path file.metadata file.meaning ≤
        between.budget.capacity := by
    rw [bytes] at enough
    omega
  rcases ofSource_eq_of_means file.parsed file.complete file.means
    (Location.realname token) fits with ⟨after, made, more, same⟩
  refine ⟨after, ?_, ?_, same.trans capacity⟩
  · exact Run.bind_eq_ok_iff.mpr ⟨_, between, located, made⟩
  · rw [more, used, bytes]
    omega

theorem find_of_path (metadata : Location.isMetadataFile path = true)
    {before : Ledger}
    (enough : before.used + file.bytes ≤ before.budget.capacity) :
    ∃ after,
      find settings path before =
        .ok (file.package (Location.realname path)) after ∧
      after.used = before.used + file.bytes ∧
      after.budget.capacity = before.budget.capacity := by
  have enough' : (before.note (.consulted path)).used + file.bytes ≤
      (before.note (.consulted path)).budget.capacity := enough
  rcases file.read?_eq path enough' with ⟨between, read, charged⟩
  have located : locate? settings path before =
      .ok (some ⟨path, file.source⟩) between := by
    rw [locate?, if_pos metadata]
    refine Run.bind_eq_ok_iff.mpr ⟨(), _, rfl, ?_⟩
    exact Run.bind_eq_ok_iff.mpr ⟨_, between, read, rfl⟩
  exact file.find_of_located enough located charged.used charged.capacity

end

theorem find_of_name {settings : Settings} {directory name : String}
    {rest : List String}
    (first : settings.searchPath.directories = directory :: rest)
    (file : ValidFile settings (Location.metadataFile directory name))
    (ordinary : Location.isMetadataFile name = false)
    (external : name ≠ Builtin.name) {before : Ledger}
    (enough : before.used + file.bytes ≤ before.budget.capacity) :
    ∃ after,
      find settings name before = .ok (file.package name) after ∧
      after.used = before.used + file.bytes ∧
      after.budget.capacity = before.budget.capacity := by
  let tried := before.note (.tried (Location.metadataFile directory name))
  have enough' : tried.used + file.bytes ≤ tried.budget.capacity := enough
  rcases file.read?_eq name enough' with ⟨between, read, charged⟩
  have located : locate? settings name before =
      .ok (some ⟨Location.metadataFile directory name, file.source⟩)
        between := by
    rw [locate?, if_neg (by simp [ordinary]), locateByName?]
    simp only [external, if_false, SearchPath.candidates, first, List.map_cons,
      locateAmong?]
    refine Run.bind_eq_ok_iff.mpr ⟨(), tried, rfl, ?_⟩
    exact Run.bind_eq_ok_iff.mpr ⟨_, between, read, rfl⟩
  have named : Location.realname name = name := by
    simp [Location.realname, ordinary]
  have found := file.find_of_located enough located charged.used
    charged.capacity
  rwa [named] at found

end ValidFile

end Package

end PkgConfig
