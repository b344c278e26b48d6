import Std.Data.HashMap.Lemmas
import PkgConfig.Proofs.Detachment
import PkgConfig.Proofs.Openings

namespace PkgConfig

/-! The names, the index and the list of direct packages of a catalogue agree
with its packages, whatever was resolved into it and wherever that broke off. -/

namespace Catalogue

/-! ## Marks -/

private theorem marksOf_insert {package : Package}
    (unmarked : package.marks = .none) (catalogue : Catalogue) (id : Nat) :
    (catalogue.insert package).marksOf id = catalogue.marksOf id := by
  by_cases last : id = catalogue.size
  · have absent : catalogue.package? catalogue.size = none :=
      List.getElem?_eq_none (Nat.le_refl _)
    simp [marksOf, package?_insert, last, absent, unmarked]
  · simp [marksOf, package?_insert, last]

private theorem direct_mark (catalogue : Catalogue) (id other : Nat)
    (marks : Marks) : ((catalogue.mark id marks).marksOf other).direct =
      ((catalogue.marksOf other).direct ||
        decide (id = other ∧ id < catalogue.size) && marks.direct) := by
  by_cases same : id = other
  · subst same
    by_cases known : id < catalogue.size
    · rw [marksOf_mark _ _ _ known]
      simp [Marks.union, known]
    · have absent : catalogue.package? id = none :=
        List.getElem?_eq_none (Nat.le_of_not_lt known)
      simp [marksOf, package?_mark, absent, known]
  · simp [marksOf, package?_mark, same]

private theorem marksOf_mergeMarks (catalogue : Catalogue) (id other : Nat)
    (marks : Marks) :
    (catalogue.mergeMarks id marks).marksOf other =
      (catalogue.mark id marks).marksOf other := by
  rw [marksOf, package?, packages_mergeMarks]
  rfl

structure Consistent (catalogue : Catalogue) : Prop where
  distinct : catalogue.realnames.Nodup
  listed_once : catalogue.direct.Nodup
  listed_iff : ∀ id, id ∈ catalogue.direct ↔
    (catalogue.marksOf id).direct = true

namespace Consistent

theorem empty : Consistent .empty where
  distinct := List.nodup_nil
  listed_once := List.nodup_nil
  listed_iff := by simp [Catalogue.empty, marksOf, package?, Marks.none]

theorem insert {catalogue : Catalogue} {package : Package}
    (consistent : Consistent catalogue)
    (absent : catalogue.find? package.realname = none)
    (unmarked : package.marks = .none) :
    Consistent (catalogue.insert package) where
  distinct := nodup_insert consistent.distinct absent
  listed_once := consistent.listed_once
  listed_iff id := by
    rw [marksOf_insert unmarked]
    exact consistent.listed_iff id

theorem expose {catalogue : Catalogue} (consistent : Consistent catalogue)
    (id : Nat) : Consistent (catalogue.mark id ⟨false, true⟩) where
  distinct := by
    rw [realnames_mark]
    exact consistent.distinct
  listed_once := consistent.listed_once
  listed_iff other := by
    rw [direct_mark, Bool.and_false, Bool.or_false]
    exact consistent.listed_iff other

theorem mergeMarks {catalogue : Catalogue} (consistent : Consistent catalogue)
    {id : Nat} (known : id < catalogue.size) (marks : Marks) :
    Consistent (catalogue.mergeMarks id marks) := by
  have listed := consistent.listed_iff
  refine ⟨?distinct, ?once, ?iff⟩
  case distinct =>
    rw [realnames_mergeMarks]
    exact consistent.distinct
  case once =>
    unfold Catalogue.mergeMarks
    dsimp only
    split
    next joins =>
      have unlisted : id ∉ catalogue.direct := by
        rw [listed]
        simpa using (Bool.and_eq_true_iff.mp joins).2
      simpa [List.nodup_append, consistent.listed_once] using
        fun other among => ne_of_mem_of_not_mem among unlisted
    · exact consistent.listed_once
  case iff =>
    intro other
    rw [marksOf_mergeMarks, direct_mark, Bool.or_eq_true, ← listed,
      Bool.and_eq_true, decide_eq_true_iff]
    unfold Catalogue.mergeMarks
    dsimp only
    split
    next joins =>
      have direct := (Bool.and_eq_true_iff.mp joins).1
      rw [List.mem_append, List.mem_singleton, eq_comm (a := other)]
      simp only [known, direct, and_true]
    next stays =>
      constructor
      · exact .inl
      · rintro (among | ⟨⟨rfl, _⟩, direct⟩)
        · exact among
        · apply (listed id).mpr
          simpa [direct] using stays

end Consistent

theorem Grows.consistent {before after : Catalogue} (grown : Grows before after)
    (consistent : Consistent before) : Consistent after := by
  induction grown with
  | refl => exact consistent
  | insert _ absent unmarked induction => exact induction.insert absent unmarked
  | expose _ induction => exact induction.expose _
  | mergeMarks _ known induction => exact induction.mergeMarks known _

/-! ## The index -/

def index (catalogue : Catalogue) : Std.HashMap String Nat :=
  catalogue.packages.zipIdx.foldl
    (fun index (package, id) => index.insert package.realname id) ∅

/-- The index has one entry for each package and leads to packages of the right
names, and the packages that are listed as direct are marked so. -/
def isConsistent (catalogue : Catalogue) : Bool :=
  catalogue.index.size == catalogue.size &&
    catalogue.direct.all (fun id => (catalogue.marksOf id).direct) &&
    catalogue.index.toList.all fun (name, id) =>
      (catalogue.package? id).any (·.realname == name)

private theorem index_insert (catalogue : Catalogue) (package : Package) :
    (catalogue.insert package).index =
      catalogue.index.insert package.realname catalogue.size := by
  simp [index, insert, size, List.zipIdx_append, List.foldl_append]

private theorem getElem?_index (catalogue : Catalogue) (name : String) :
    catalogue.index[name]? = catalogue.find? name := by
  rcases catalogue with ⟨packages, direct⟩
  induction packages using List.reverseRecOn with
  | nil => simp [index, find?]
  | append_singleton packages last induction =>
      have inserted : (⟨packages ++ [last], direct⟩ : Catalogue) =
          insert ⟨packages, direct⟩ last := rfl
      rw [inserted, index_insert, Std.HashMap.getElem?_insert, induction,
        find?_insert]
      simp only [beq_iff_eq]

private theorem size_index {catalogue : Catalogue}
    (distinct : catalogue.realnames.Nodup) :
    catalogue.index.size = catalogue.size := by
  rcases catalogue with ⟨packages, direct⟩
  induction packages using List.reverseRecOn with
  | nil => simp [index, size]
  | append_singleton packages last induction =>
      have inserted : (⟨packages ++ [last], direct⟩ : Catalogue) =
          insert ⟨packages, direct⟩ last := rfl
      rw [inserted, realnames_insert, List.nodup_append] at distinct
      have absent : last.realname ∉ (⟨packages, direct⟩ : Catalogue).index := by
        have unnamed : last.realname ∉
            (⟨packages, direct⟩ : Catalogue).realnames := fun among =>
          distinct.2.2 _ among _ (List.mem_singleton_self _) rfl
        rw [Std.HashMap.mem_iff_isSome_getElem?, getElem?_index,
          find?_eq_none_iff.mpr unnamed]
        simp
      rw [inserted, index_insert, Std.HashMap.size_insert, if_neg absent,
        induction distinct.1, size_insert]

theorem getElem?_realnames (catalogue : Catalogue) (id : Nat) :
    catalogue.realnames[id]? = (catalogue.package? id).map Package.realname :=
  List.getElem?_map

theorem find?_eq_some_iff {catalogue : Catalogue}
    (distinct : catalogue.realnames.Nodup) {name : String} {id : Nat} :
    catalogue.find? name = some id ↔
      ∃ package, catalogue.package? id = some package ∧
        package.realname = name := by
  constructor
  · exact package?_of_find?
  · rintro ⟨package, held, rfl⟩
    cases found : catalogue.find? package.realname with
    | none =>
        have listed := mem_packages_iff.mpr ⟨id, held⟩
        exact absurd (List.mem_map_of_mem listed) (find?_eq_none_iff.mp found)
    | some other =>
        rcases package?_of_find? found with ⟨same, present, named⟩
        have first : catalogue.realnames[other]? = some package.realname := by
          rw [getElem?_realnames, present, Option.map_some, named]
        have second : catalogue.realnames[id]? = some package.realname := by
          rw [getElem?_realnames, held, Option.map_some]
        have bound := (List.getElem?_eq_some_iff.mp first).1
        rw [(List.getElem?_inj bound distinct).mp (first.trans second.symm)]

private theorem Consistent.isConsistent {catalogue : Catalogue}
    (consistent : Consistent catalogue) : catalogue.isConsistent = true := by
  have indexed := size_index consistent.distinct
  have listed : ∀ id ∈ catalogue.direct, (catalogue.marksOf id).direct = true :=
    fun id among => (consistent.listed_iff id).mp among
  have leads : ∀ entry ∈ catalogue.index.toList,
      (catalogue.package? entry.2).any (·.realname == entry.1) = true := by
    rintro ⟨name, id⟩ among
    rw [Std.HashMap.mem_toList_iff_getElem?_eq_some, getElem?_index] at among
    rcases package?_of_find? among with ⟨package, held, named⟩
    simp [held, named]
  simp only [Catalogue.isConsistent, indexed, beq_self_eq_true, Bool.true_and,
    Bool.and_eq_true, List.all_eq_true]
  exact ⟨listed, leads⟩

end Catalogue

/-! ## Sequences of arguments -/

namespace Resolution

/-- The resolution after one more argument, with the ledger of that time, whether
the argument could be resolved or not. -/
def pushed (settings : Settings) (resolution : Resolution)
    (push : Ledger × String) : Resolution :=
  (Session.ofResult
    (Resolve.push settings push.2 ⟨resolution, push.1⟩)).resolution

def afterPushes (settings : Settings) (pushes : List (Ledger × String)) :
    Resolution :=
  pushes.foldl (pushed settings) .empty

theorem grows_pushed (settings : Settings) (resolution : Resolution)
    (push : Ledger × String) :
    resolution.catalogue.Grows (resolution.pushed settings push).catalogue := by
  rcases push with ⟨ledger, argument⟩
  rcases Walk.exists_runs settings (.start argument resolution.position)
    ⟨resolution, ledger⟩ with ⟨visited, opened, runs⟩
  have grows := runs.grows
  rw [pushed, Resolve.push_eq_conclude, Resolve.catalogue_conclude]
  exact grows

theorem grows_afterPushes (settings : Settings)
    (pushes : List (Ledger × String)) :
    Catalogue.empty.Grows (afterPushes settings pushes).catalogue := by
  induction pushes using List.reverseRecOn with
  | nil => exact .refl
  | append_singleton pushes last induction =>
      rw [afterPushes, List.foldl_append]
      exact induction.trans (grows_pushed settings _ last)

private theorem catalogue_pushed (settings : Settings) (argument : String)
    (before : Session) :
    (Session.ofResult
        (Resolve.push settings argument before)).resolution.catalogue.Extends
      before.resolution.catalogue :=
  (grows_pushed settings before.resolution
    (before.ledger, argument)).extended

theorem position_of_failed {settings : Settings} {argument : String}
    {before after : Session} {error : Error}
    (failed : Resolve.push settings argument before = .error error after) :
    after.resolution.position = before.resolution.position := by
  have detached := Resolve.Detached.readTokens settings (Text.tokens argument)
    before.resolution.position
  have kept := detached.moveResult_eq before
  have read := readArgument_of_push failed
  rw [RecursiveWalk.readArgument] at read
  rw [read] at kept
  exact congrArg (·.resolution.position) (EStateM.Result.error.inj kept).2.symm

end Resolution

/-- After any sequence of arguments, resolved or not, names are distinct and lead
to their packages, the direct packages are listed once each, and the check of
consistency passes. One more argument keeps every package in its place, with its
marks, and if it fails also the position. -/
theorem afterPushes_consistent (settings : Settings)
    (pushes : List (Ledger × String)) :
    let resolution := Resolution.afterPushes settings pushes
    let catalogue := resolution.catalogue
    catalogue.realnames.Nodup ∧
      (∀ name id, catalogue.find? name = some id ↔
        ∃ package, catalogue.package? id = some package ∧
          package.realname = name) ∧
      catalogue.direct.Nodup ∧
      (∀ id, id ∈ catalogue.direct ↔
        ∃ package, catalogue.package? id = some package ∧
          package.marks.direct = true) ∧
      catalogue.isConsistent = true ∧
      ∀ ledger argument,
        match Resolve.push settings argument ⟨resolution, ledger⟩ with
        | .ok _ after => after.resolution.catalogue.Extends catalogue
        | .error _ after =>
            after.resolution.catalogue.Extends catalogue ∧
              after.resolution.position = resolution.position := by
  intro resolution catalogue
  have grown : Catalogue.empty.Grows catalogue :=
    Resolution.grows_afterPushes settings pushes
  have consistent := grown.consistent .empty
  refine ⟨consistent.distinct,
    fun name id => Catalogue.find?_eq_some_iff consistent.distinct,
    consistent.listed_once, ?direct, consistent.isConsistent, ?next⟩
  case direct =>
    intro id
    rw [consistent.listed_iff, Catalogue.marksOf]
    cases catalogue.package? id with
    | none => simp [Marks.none]
    | some package => simp
  case next =>
    intro ledger argument
    have extended := Resolution.catalogue_pushed settings argument
      ⟨resolution, ledger⟩
    cases pushed : Resolve.push settings argument ⟨resolution, ledger⟩ with
    | ok _ after =>
        rw [pushed] at extended
        exact extended
    | error error after =>
        rw [pushed] at extended
        exact ⟨extended, Resolution.position_of_failed pushed⟩

end PkgConfig
