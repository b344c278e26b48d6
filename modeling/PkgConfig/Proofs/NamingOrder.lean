import PkgConfig.Proofs.Consistency
import PkgConfig.Proofs.Evaluation

namespace PkgConfig

/-! The order of the direct packages. They are listed as the arguments name them
first, whatever is loaded in between. -/

/-! ## Lists -/

theorem eraseDups_of_nodup {names : List String} (distinct : names.Nodup) :
    names.eraseDups = names := by
  induction names with
  | nil => rfl
  | cons name names induction =>
      rcases List.nodup_cons.mp distinct with ⟨absent, distinct⟩
      have kept : names.filter (fun other => !other == name) = names := by
        apply List.filter_eq_self.mpr
        intro other among
        simpa using ne_of_mem_of_not_mem among absent
      rw [List.eraseDups_cons, kept, induction distinct]

def appendNew (names : List String) (name : String) : List String :=
  if name ∈ names then names else names ++ [name]

theorem eraseDups_appendNew (names : List String) (name : String)
    (rest : List String) :
    (appendNew names name ++ rest).eraseDups =
      (names ++ name :: rest).eraseDups := by
  unfold appendNew
  split
  next among =>
    have removed : (name :: rest).removeAll names = rest.removeAll names := by
      simp [List.removeAll, among]
    rw [List.eraseDups_append, List.eraseDups_append, removed]
  · rw [List.append_assoc]
    rfl

/-! ## Catalogues -/

namespace Catalogue

def directNames (catalogue : Catalogue) : List String :=
  catalogue.directPackages.map Package.realname

theorem directNames_eq (catalogue : Catalogue) :
    catalogue.directNames =
      catalogue.direct.filterMap (catalogue.realnames[·]?) := by
  simp only [directNames, directPackages, List.map_filterMap,
    getElem?_realnames]

private theorem getElem?_realnames_eq_some_iff {catalogue : Catalogue}
    (distinct : catalogue.realnames.Nodup) {name : String} {id : Nat} :
    catalogue.realnames[id]? = some name ↔ catalogue.find? name = some id := by
  rw [find?_eq_some_iff distinct, getElem?_realnames, Option.map_eq_some_iff]

private theorem mem_directNames_iff {catalogue : Catalogue}
    (distinct : catalogue.realnames.Nodup) {name : String} :
    name ∈ catalogue.directNames ↔
      ∃ id ∈ catalogue.direct, catalogue.find? name = some id := by
  simp only [directNames_eq, List.mem_filterMap,
    getElem?_realnames_eq_some_iff distinct]

theorem lt_size_of_find? {catalogue : Catalogue} {name : String} {id : Nat}
    (found : catalogue.find? name = some id) : id < catalogue.size := by
  rcases package?_of_find? found with ⟨package, held, _⟩
  exact lt_size_iff.mpr ⟨package, held⟩

private theorem direct_mergeMarks_of_indirect (catalogue : Catalogue) (id : Nat)
    {marks : Marks} (indirect : marks.direct = false) :
    (catalogue.mergeMarks id marks).direct = catalogue.direct := by
  rw [mergeMarks_of_indirect _ _ indirect]
  rfl

private theorem directNames_mergeMarks {catalogue : Catalogue}
    (consistent : Consistent catalogue) {name : String} {id : Nat}
    (found : catalogue.find? name = some id) {marks : Marks}
    (direct : marks.direct = true) :
    (catalogue.mergeMarks id marks).directNames =
      appendNew catalogue.directNames name := by
  have shown := (getElem?_realnames_eq_some_iff consistent.distinct).mpr found
  have listed : name ∈ catalogue.directNames ↔
      (catalogue.marksOf id).direct = true := by
    rw [mem_directNames_iff consistent.distinct, ← consistent.listed_iff]
    constructor
    · rintro ⟨other, among, same⟩
      cases found.symm.trans same
      exact among
    · intro among
      exact ⟨id, among, found⟩
  rw [appendNew, directNames_eq, realnames_mergeMarks]
  simp only [mergeMarks, direct, Bool.true_and, Bool.not_eq_true', listed]
  cases (catalogue.marksOf id).direct with
  | true => exact (directNames_eq catalogue).symm
  | false => simp [directNames_eq, shown]

theorem Extends.directNames_eq {before after : Catalogue}
    (extended : after.Extends before) (consistent : Consistent before)
    (same : after.direct = before.direct) :
    after.directNames = before.directNames := by
  rw [Catalogue.directNames_eq, Catalogue.directNames_eq, same]
  apply List.filterMap_congr
  intro id among
  have direct := (consistent.listed_iff id).mp among
  cases held : before.package? id with
  | none => simp [marksOf, held, Marks.none] at direct
  | some package =>
      rcases extended id package held with ⟨marks, kept⟩
      rw [getElem?_realnames, getElem?_realnames, held, kept]
      rfl

namespace Consistent

private theorem nodup_directNames {catalogue : Catalogue}
    (consistent : Consistent catalogue) : catalogue.directNames.Nodup := by
  rw [directNames_eq]
  apply consistent.listed_once.filterMap
  intro first second name left right
  have left := (getElem?_realnames_eq_some_iff consistent.distinct).mp left
  have right := (getElem?_realnames_eq_some_iff consistent.distinct).mp right
  exact Option.some.inj (left.symm.trans right)

theorem enrol {catalogue : Catalogue} {package : Package}
    (consistent : Consistent catalogue)
    (absent : catalogue.find? package.realname = none)
    (unmarked : package.marks = .none) (marks : Marks) :
    Consistent (catalogue.enrol package marks) :=
  (consistent.insert absent unmarked).mergeMarks (by simp) marks

end Consistent

private theorem directNames_enrol {catalogue : Catalogue} {package : Package}
    (consistent : Consistent catalogue)
    (absent : catalogue.find? package.realname = none)
    (unmarked : package.marks = .none) {marks : Marks}
    (direct : marks.direct = true) :
    (catalogue.enrol package marks).directNames =
      appendNew catalogue.directNames package.realname := by
  have inserted := consistent.insert absent unmarked
  have found : (catalogue.insert package).find? package.realname =
      some catalogue.size := by
    rw [find?_insert, if_pos rfl]
  rw [Catalogue.enrol, directNames_mergeMarks inserted found direct,
    (extends_insert catalogue package).directNames_eq consistent rfl]

end Catalogue

/-! ## Readings -/

namespace Reads

variable {settings : Settings} {opened depth : Nat} {marks : Marks}
  {position final : Position} {tokens : List String} {before after : Catalogue}

theorem consistent (reads : Reads settings opened depth marks position tokens
    before final after) (consistent : before.Consistent) :
    after.Consistent := by
  induction reads with
  | done => exact consistent
  | version _ _ _ rest => exact rest consistent
  | operator _ _ _ _ rest => exact rest consistent
  | known _ _ found _ _ rest =>
      exact rest (consistent.mergeMarks (Catalogue.lt_size_of_find? found) _)
  | promoted _ _ found _ _ _ _ _ _ publicList rest =>
      exact rest (publicList
        (consistent.mergeMarks (Catalogue.lt_size_of_find? found) _))
  | skipped _ _ absent loads _ _ rest =>
      rcases loads.realname_eq with ⟨named, unmarked⟩
      rw [← named] at absent
      exact rest (consistent.enrol absent unmarked _)
  | loaded _ _ absent loads _ _ _ _ _ _ _ publicList privateList rest =>
      rcases loads.realname_eq with ⟨named, unmarked⟩
      rw [← named] at absent
      exact rest (privateList (publicList
        (consistent.enrol absent unmarked _)))

private theorem direct_eq
    (reads : Reads settings opened depth marks position tokens
    before final after) (indirect : marks.direct = false) :
    after.direct = before.direct := by
  induction reads with
  | done => rfl
  | version _ _ _ rest => exact rest indirect
  | operator _ _ _ _ rest => exact rest indirect
  | known _ _ _ _ _ rest =>
      rw [rest indirect]
      exact Catalogue.direct_mergeMarks_of_indirect _ _ indirect
  | promoted _ _ _ _ _ _ _ _ _ publicList rest =>
      rw [rest indirect, publicList rfl]
      exact Catalogue.direct_mergeMarks_of_indirect _ _ indirect
  | skipped _ _ _ _ _ _ rest =>
      rw [rest indirect]
      exact Catalogue.direct_mergeMarks_of_indirect _ _ indirect
  | loaded _ _ _ _ _ _ _ _ _ _ _ publicList privateList rest =>
      rw [rest indirect, privateList rfl, publicList rfl]
      exact Catalogue.direct_mergeMarks_of_indirect _ _ indirect

private theorem directNames_eq_of_indirect
    (reads : Reads settings opened depth marks
    position tokens before final after) (indirect : marks.direct = false)
    (consistent : before.Consistent) :
    after.directNames = before.directNames :=
  reads.extended.directNames_eq consistent (reads.direct_eq indirect)

/-- A list that names packages for the user appends those names that are new. -/
theorem directNames_eq (reads : Reads settings opened depth marks position
    tokens before final after) (direct : marks.direct = true)
    (consistent : before.Consistent) :
    after.directNames = (before.directNames ++
      (packageTokens position.pending.isSome tokens).map
        Location.realname).eraseDups := by
  -- Each token that names a package appends its name before the lists under it
  -- are read, and those leave the names as they are.
  induction reads with
  | done =>
      simp [packageTokens, eraseDups_of_nodup consistent.nodup_directNames]
  | version pending _ _ rest =>
      rw [packageTokens_version pending]
      exact rest direct consistent
  | operator settled operator _ _ rest =>
      rw [packageTokens_operator settled operator]
      exact rest direct consistent
  | known settled names found _ _ rest =>
      have marked := consistent.mergeMarks (Catalogue.lt_size_of_find? found)
      rw [packageTokens_name settled names, rest direct (marked _),
        Catalogue.directNames_mergeMarks consistent found direct]
      exact eraseDups_appendNew _ _ _
  | promoted settled names found _ _ _ publicReads _ _ _ rest =>
      have marked := consistent.mergeMarks (Catalogue.lt_size_of_find? found)
      rw [packageTokens_name settled names,
        rest direct (publicReads.consistent (marked _)),
        publicReads.directNames_eq_of_indirect rfl (marked _),
        Catalogue.directNames_mergeMarks consistent found direct]
      exact eraseDups_appendNew _ _ _
  | skipped settled names absent loads _ _ rest =>
      rcases loads.realname_eq with ⟨named, unmarked⟩
      rw [← named] at absent
      have enrolled := consistent.enrol absent unmarked
      rw [packageTokens_name settled names, rest direct (enrolled _),
        Catalogue.directNames_enrol consistent absent unmarked direct, named]
      exact eraseDups_appendNew _ _ _
  | loaded settled names absent loads _ _ publicReads _ privateReads _ _ _ _
      rest =>
      rcases loads.realname_eq with ⟨named, unmarked⟩
      rw [← named] at absent
      have enrolled := consistent.enrol absent unmarked
      have shown := publicReads.consistent (enrolled _)
      rw [packageTokens_name settled names,
        rest direct (privateReads.consistent shown),
        privateReads.directNames_eq_of_indirect rfl shown,
        publicReads.directNames_eq_of_indirect rfl (enrolled _),
        Catalogue.directNames_enrol consistent absent unmarked direct, named]
      exact eraseDups_appendNew _ _ _

end Reads

/-- After arguments that can all be resolved, the direct packages are those that
the arguments name, in the order in which each is first named there. -/
theorem directPackages_of_pushAll {settings : Settings}
    {arguments : List String} {ledger : Ledger} {after : Session}
    (pushed : Resolve.pushAll settings arguments ⟨.empty, ledger⟩ =
      .ok () after) :
    let names := after.resolution.catalogue.directPackages.map Package.realname
    names = (namesInArguments arguments).eraseDups ∧ names.Nodup := by
  have reads := reads_of_pushAll pushed
  have named := reads.directNames_eq rfl .empty
  exact ⟨named, (reads.consistent .empty).nodup_directNames⟩

/-- A package that was a requirement before it is named, one that is named again
by its path, and an operator that waits for the next argument. -/
theorem directPackages_of_pushAll_requirement :
    ∃ settings after,
      Resolve.pushAll settings ["a b <=", "1 /p/a.pc", "c"]
        ⟨.empty, settings.freshLedger⟩ = .ok () after ∧
      after.resolution.catalogue.realnames = ["a", "c", "b"] ∧
      after.resolution.catalogue.directPackages.map Package.realname =
        ["a", "b", "c"] := by
  let settings := FileTable.settings .none
    [FileTable.metadataFile "a" "Requires.private: c\n",
      FileTable.metadataFile "b" "", FileTable.metadataFile "c" ""]
  have computed : (RecursiveWalk.pushAll? settings
      ["a b <=", "1 /p/a.pc", "c"]).map Catalogue.realnames =
        some ["a", "c", "b"] := by
    cbv
  rcases Resolve.pushAll_of_pushAll? computed with ⟨after, pushed, seen⟩
  have named := (directPackages_of_pushAll pushed).1
  have names : (namesInArguments ["a b <=", "1 /p/a.pc", "c"]).eraseDups =
      ["a", "b", "c"] := by
    cbv
  exact ⟨settings, after, pushed, seen, named.trans names⟩

end PkgConfig
