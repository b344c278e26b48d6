import Mathlib.Data.List.Induction
import PkgConfig.Catalogue

namespace PkgConfig

/-! What happens to a catalogue when packages are inserted and marked. Both keep
every package in its place, and marks are only ever added. -/

namespace Marks

@[simp] theorem union_none (marks : Marks) : marks.union .none = marks := by
  simp [union, none]

private theorem union_assoc (left middle right : Marks) :
    (left.union middle).union right = left.union (middle.union right) := by
  simp [union, Bool.or_assoc]

end Marks

def Package.mark (package : Package) (marks : Marks) : Package :=
  { package with marks := package.marks.union marks }

namespace Package

@[simp] theorem mark_none (package : Package) :
    package.mark .none = package := by
  simp [mark]

theorem mark_mark (package : Package) (first second : Marks) :
    (package.mark first).mark second = package.mark (first.union second) := by
  simp [mark, Marks.union_assoc]

@[simp] theorem realname_mark (package : Package) (marks : Marks) :
    (package.mark marks).realname = package.realname := rfl

@[simp] theorem marks_mark (package : Package) (marks : Marks) :
    (package.mark marks).marks = package.marks.union marks := rfl

end Package

namespace Catalogue

/-! ## Places -/

theorem package?_mark (catalogue : Catalogue) (id other : Nat) (marks : Marks) :
    (catalogue.mark id marks).package? other =
      if id = other then (catalogue.package? other).map (·.mark marks)
      else catalogue.package? other := by
  simp only [package?, mark, List.getElem?_modify]
  split <;> cases catalogue.packages[other]? <;> rfl

theorem packages_mergeMarks (catalogue : Catalogue) (id : Nat)
    (marks : Marks) :
    (catalogue.mergeMarks id marks).packages =
      (catalogue.mark id marks).packages := by
  unfold mergeMarks
  dsimp only
  split <;> rfl

theorem package?_mergeMarks (catalogue : Catalogue) (id other : Nat)
    (marks : Marks) :
    (catalogue.mergeMarks id marks).package? other =
      if id = other then (catalogue.package? other).map (·.mark marks)
      else catalogue.package? other := by
  rw [← package?_mark, package?, packages_mergeMarks, package?]

theorem package?_insert (catalogue : Catalogue) (package : Package)
    (id : Nat) :
    (catalogue.insert package).package? id =
      if id = catalogue.size then some package else catalogue.package? id := by
  have bound : catalogue.size = catalogue.packages.length := rfl
  simp only [package?, insert]
  rcases Nat.lt_trichotomy id catalogue.size with less | equal | more
  · rw [if_neg (Nat.ne_of_lt less), List.getElem?_append_left less]
  · simp [equal, bound]
  · rw [if_neg (Nat.ne_of_gt more), List.getElem?_eq_none (by simp; omega),
      List.getElem?_eq_none (Nat.le_of_lt more)]

theorem lt_size_iff {catalogue : Catalogue} {id : Nat} :
    id < catalogue.size ↔ ∃ package, catalogue.package? id = some package := by
  simp [package?, size, ← Option.isSome_iff_exists]

theorem mem_packages_iff {catalogue : Catalogue} {package : Package} :
    package ∈ catalogue.packages ↔
      ∃ id, catalogue.package? id = some package :=
  List.mem_iff_getElem?

/-! ## Names -/

theorem map_packages_mark {shown : Package → α}
    (ignores : ∀ package marks, shown (Package.mark package marks) =
      shown package) (catalogue : Catalogue) (id : Nat) (marks : Marks) :
    (catalogue.mark id marks).packages.map shown =
      catalogue.packages.map shown := by
  apply List.ext_getElem?
  intro place
  have same := catalogue.package?_mark id place marks
  simp only [package?] at same
  simp only [List.getElem?_map, same]
  split
  · cases catalogue.packages[place]? with
    | none => rfl
    | some package => exact congrArg some (ignores package marks)
  · rfl

theorem realnames_mark (catalogue : Catalogue) (id : Nat) (marks : Marks) :
    (catalogue.mark id marks).realnames = catalogue.realnames :=
  map_packages_mark (fun _ _ => rfl) catalogue id marks

theorem realnames_mergeMarks (catalogue : Catalogue) (id : Nat)
    (marks : Marks) :
    (catalogue.mergeMarks id marks).realnames = catalogue.realnames := by
  rw [realnames, packages_mergeMarks]
  exact realnames_mark catalogue id marks

theorem realnames_insert (catalogue : Catalogue) (package : Package) :
    (catalogue.insert package).realnames =
      catalogue.realnames ++ [package.realname] := by
  simp [realnames, insert]

theorem find?_insert (catalogue : Catalogue) (package : Package)
    (realname : String) :
    (catalogue.insert package).find? realname =
      if package.realname = realname then some catalogue.size
      else catalogue.find? realname := by
  simp [find?, insert, size, List.zipIdx_append, List.foldl_append]

theorem package?_of_find? {catalogue : Catalogue} {realname : String} {id : Nat}
    (found : catalogue.find? realname = some id) :
    ∃ package, catalogue.package? id = some package ∧
      package.realname = realname := by
  rcases catalogue with ⟨packages, direct⟩
  induction packages using List.reverseRecOn with
  | nil => simp [find?] at found
  | append_singleton packages last induction =>
      have inserted : (⟨packages ++ [last], direct⟩ : Catalogue) =
          insert ⟨packages, direct⟩ last := rfl
      rw [inserted, find?_insert] at found
      rw [inserted]
      split at found
      next named =>
        refine ⟨last, ?_, named⟩
        rw [package?_insert, if_pos (Option.some.inj found).symm]
      · rcases induction found with ⟨package, held, named⟩
        refine ⟨package, ?_, named⟩
        have less := lt_size_iff.mpr ⟨package, held⟩
        rw [package?_insert, if_neg (Nat.ne_of_lt less), held]

theorem find?_eq_none_iff {catalogue : Catalogue} {realname : String} :
    catalogue.find? realname = none ↔ realname ∉ catalogue.realnames := by
  rcases catalogue with ⟨packages, direct⟩
  induction packages using List.reverseRecOn with
  | nil => simp [find?, realnames]
  | append_singleton packages last induction =>
      have inserted : (⟨packages ++ [last], direct⟩ : Catalogue) =
          insert ⟨packages, direct⟩ last := rfl
      rw [inserted, find?_insert, realnames_insert]
      split
      next named => simp [named]
      next other => simp [induction, Ne.symm other]

/-! ## Later states -/

/-- Every package is still in its place, with its marks and perhaps more. -/
def Extends (after before : Catalogue) : Prop :=
  ∀ id package, before.package? id = some package →
    ∃ marks, after.package? id = some (package.mark marks)

namespace Extends

theorem refl (catalogue : Catalogue) : catalogue.Extends catalogue :=
  fun _ package held => ⟨.none, by simpa using held⟩

theorem trans {first second third : Catalogue} (later : third.Extends second)
    (earlier : second.Extends first) : third.Extends first := by
  intro id package held
  rcases earlier id package held with ⟨marks, held⟩
  rcases later id _ held with ⟨more, held⟩
  exact ⟨marks.union more, by rw [held, Package.mark_mark]⟩

theorem mem_realnames {after before : Catalogue}
    (extended : after.Extends before) {name : String}
    (member : name ∈ before.realnames) : name ∈ after.realnames := by
  rcases List.mem_map.mp member with ⟨package, listed, named⟩
  rcases mem_packages_iff.mp listed with ⟨id, held⟩
  rcases extended id package held with ⟨marks, kept⟩
  exact List.mem_map.mpr ⟨_, mem_packages_iff.mpr ⟨id, kept⟩, named⟩

end Extends

theorem extends_insert (catalogue : Catalogue) (package : Package) :
    (catalogue.insert package).Extends catalogue := by
  intro id held member
  have less := lt_size_iff.mpr ⟨held, member⟩
  refine ⟨.none, ?_⟩
  rw [package?_insert, if_neg (Nat.ne_of_lt less), member, Package.mark_none]

theorem extends_mark (catalogue : Catalogue) (id : Nat) (marks : Marks) :
    (catalogue.mark id marks).Extends catalogue := by
  intro other package held
  rw [package?_mark, held]
  split
  · exact ⟨marks, rfl⟩
  · exact ⟨.none, by simp⟩

theorem extends_mergeMarks (catalogue : Catalogue) (id : Nat) (marks : Marks) :
    (catalogue.mergeMarks id marks).Extends catalogue := by
  intro other package held
  have extended := extends_mark catalogue id marks other package held
  rw [package?, packages_mergeMarks]
  exact extended

/-! ## Enrolment -/

def enrol (catalogue : Catalogue) (package : Package) (marks : Marks) :
    Catalogue :=
  (catalogue.insert package).mergeMarks catalogue.size marks

theorem package?_enrol (catalogue : Catalogue) (package : Package)
    (marks : Marks) (id : Nat) :
    (catalogue.enrol package marks).package? id =
      if id = catalogue.size then some (package.mark marks)
      else catalogue.package? id := by
  rw [enrol, package?_mergeMarks, package?_insert]
  by_cases last : id = catalogue.size
  · simp [last]
  · rw [if_neg (Ne.symm last), if_neg last, if_neg last]

theorem package?_enrol_size (catalogue : Catalogue) (package : Package)
    (marks : Marks) :
    (catalogue.enrol package marks).package? catalogue.size =
      some (package.mark marks) := by
  rw [package?_enrol, if_pos rfl]

theorem realnames_enrol (catalogue : Catalogue) (package : Package)
    (marks : Marks) :
    (catalogue.enrol package marks).realnames =
      catalogue.realnames ++ [package.realname] := by
  rw [enrol, realnames_mergeMarks, realnames_insert]

theorem extends_enrol (catalogue : Catalogue) (package : Package)
    (marks : Marks) : (catalogue.enrol package marks).Extends catalogue :=
  (extends_mergeMarks _ _ _).trans (extends_insert catalogue package)

/-! ## Merging twice -/

theorem mark_mark (catalogue : Catalogue) (id : Nat) (first second : Marks) :
    (catalogue.mark id first).mark id second =
      catalogue.mark id (first.union second) := by
  simp only [mark, List.modify_modify_eq]
  congr 2
  funext package
  simp [Marks.union_assoc]

theorem marksOf_mark (catalogue : Catalogue) (id : Nat) (marks : Marks)
    (known : id < catalogue.size) :
    (catalogue.mark id marks).marksOf id =
      (catalogue.marksOf id).union marks := by
  rcases lt_size_iff.mp known with ⟨package, held⟩
  simp [marksOf, package?_mark, held]

/-- Exposing a package before its marks are merged makes no difference if they
expose it. -/
theorem mergeMarks_mark (catalogue : Catalogue) (id : Nat) {marks : Marks}
    (exposing : marks.exposed = true) (known : id < catalogue.size) :
    (catalogue.mark id ⟨false, true⟩).mergeMarks id marks =
      catalogue.mergeMarks id marks := by
  have absorbed : Marks.union ⟨false, true⟩ marks = marks := by
    rcases marks with ⟨direct, exposed⟩
    simp [Marks.union, show exposed = true from exposing]
  have direct : ((catalogue.marksOf id).union ⟨false, true⟩).direct =
      (catalogue.marksOf id).direct := by
    simp [Marks.union]
  simp only [mergeMarks, marksOf_mark _ _ _ known, mark_mark, absorbed, direct]
  rfl

theorem mergeMarks_of_indirect (catalogue : Catalogue) (id : Nat)
    {marks : Marks} (indirect : marks.direct = false) :
    catalogue.mergeMarks id marks = catalogue.mark id marks := by
  simp [mergeMarks, indirect]

end Catalogue

end PkgConfig
