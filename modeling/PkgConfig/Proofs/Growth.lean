import Mathlib.Data.List.Nodup
import PkgConfig.Proofs.Requirement

namespace PkgConfig

/-! What a list leaves behind once it has been read. Nothing is lost, no name is
taken twice, and all that the list names is there with the marks of the list. -/

/-! ## Marks -/

namespace Marks

theorem includes_refl (marks : Marks) : marks.includes marks = true := by
  rcases marks with ⟨direct, exposed⟩
  cases direct <;> cases exposed <;> rfl

theorem includes_trans {first second third : Marks}
    (more : third.includes second = true)
    (less : second.includes first = true) : third.includes first = true := by
  rcases first with ⟨direct, exposed⟩
  simp only [includes, Bool.and_eq_true, Bool.or_eq_true, Bool.not_eq_true']
    at *
  constructor
  · rcases less.1 with absent | present
    · exact .inl absent
    · exact .inr (more.1.resolve_left (by simp [present]))
  · rcases less.2 with absent | present
    · exact .inl absent
    · exact .inr (more.2.resolve_left (by simp [present]))

theorem includes_none (marks : Marks) : marks.includes .none = true := by
  simp [includes, none]

theorem includes_indirect (marks : Marks) :
    marks.includes marks.indirect = true := by
  rcases marks with ⟨direct, exposed⟩
  cases direct <;> cases exposed <;> rfl

theorem union_includes_left (left right : Marks) :
    (left.union right).includes left = true := by
  rcases left with ⟨direct, exposed⟩
  cases direct <;> cases exposed <;> simp [includes, union]

theorem union_includes_right (left right : Marks) :
    (left.union right).includes right = true := by
  rcases right with ⟨direct, exposed⟩
  cases direct <;> cases exposed <;> simp [includes, union]

end Marks

namespace Catalogue

/-! ## Holding a name -/

def Holds (catalogue : Catalogue) (name : String) (marks : Marks) : Prop :=
  ∃ package ∈ catalogue.packages, package.realname = name ∧
    package.marks.includes marks = true

theorem holds_none_iff {catalogue : Catalogue} {name : String} :
    catalogue.Holds name .none ↔ name ∈ catalogue.realnames := by
  simp [Holds, realnames, Marks.includes_none]

namespace Holds

theorem weaken {catalogue : Catalogue} {name : String} {more less : Marks}
    (holds : catalogue.Holds name more)
    (included : more.includes less = true) : catalogue.Holds name less := by
  rcases holds with ⟨package, member, named, marked⟩
  exact ⟨package, member, named, Marks.includes_trans marked included⟩

theorem later {before after : Catalogue} {name : String} {marks : Marks}
    (holds : before.Holds name marks) (extended : after.Extends before) :
    after.Holds name marks := by
  rcases holds with ⟨package, member, named, marked⟩
  rcases mem_packages_iff.mp member with ⟨id, held⟩
  rcases extended id package held with ⟨more, kept⟩
  refine ⟨_, mem_packages_iff.mpr ⟨id, kept⟩, named, ?_⟩
  exact Marks.includes_trans (Marks.union_includes_left _ _) marked

end Holds

theorem holds_mergeMarks {catalogue : Catalogue} {name : String} {id : Nat}
    (found : catalogue.find? name = some id) (marks : Marks) :
    (catalogue.mergeMarks id marks).Holds name marks := by
  rcases package?_of_find? found with ⟨package, held, named⟩
  refine ⟨package.mark marks, mem_packages_iff.mpr ⟨id, ?_⟩, named,
    Marks.union_includes_right _ _⟩
  rw [package?_mergeMarks, if_pos rfl, held, Option.map_some]

theorem holds_enrol (catalogue : Catalogue) (package : Package)
    (marks : Marks) :
    (catalogue.enrol package marks).Holds package.realname marks := by
  have held := package?_enrol_size catalogue package marks
  exact ⟨package.mark marks, mem_packages_iff.mpr ⟨_, held⟩, rfl,
    Marks.union_includes_right _ _⟩

theorem eq_of_realname_eq {catalogue : Catalogue} {left right : Package}
    (distinct : catalogue.realnames.Nodup) (first : left ∈ catalogue.packages)
    (second : right ∈ catalogue.packages)
    (same : left.realname = right.realname) : left = right :=
  List.inj_on_of_nodup_map distinct first second same

theorem nodup_insert {catalogue : Catalogue} {package : Package}
    (distinct : catalogue.realnames.Nodup)
    (absent : catalogue.find? package.realname = none) :
    (catalogue.insert package).realnames.Nodup := by
  rw [realnames_insert, ← List.concat_eq_append]
  exact List.Nodup.concat (find?_eq_none_iff.mp absent) distinct

theorem nodup_enrol {catalogue : Catalogue} {package : Package}
    (distinct : catalogue.realnames.Nodup)
    (absent : catalogue.find? package.realname = none) (marks : Marks) :
    (catalogue.enrol package marks).realnames.Nodup := by
  rw [enrol, realnames_mergeMarks]
  exact nodup_insert distinct absent

/-! ## Requirements -/

theorem requirements_eq {catalogue : Catalogue} {id : Nat} {package : Package}
    (held : catalogue.package? id = some package) (field : Field) :
    catalogue.requirements id field = Text.tokens (package.field field) := by
  simp [requirements, held]

theorem Extends.requires {before after : Catalogue} {id : Nat}
    {package : Package} (extended : after.Extends before)
    (held : before.package? id = some package) {fields : List Field}
    {field : Field} (listed : field ∈ fields) {next : String}
    (member : next ∈ package.requires field) :
    after.Requires fields package.realname next := by
  rcases extended id package held with ⟨marks, kept⟩
  exact ⟨_, mem_packages_iff.mpr ⟨id, kept⟩, rfl, field, listed, member⟩

theorem Extends.of_requires {before after : Catalogue} {id : Nat}
    {package : Package} (extended : after.Extends before)
    (distinct : after.realnames.Nodup)
    (held : before.package? id = some package) {fields : List Field}
    {next : String}
    (requires : after.Requires fields package.realname next) :
    ∃ field ∈ fields, next ∈ package.requires field := by
  rcases extended id package held with ⟨marks, kept⟩
  rcases requires with ⟨other, member, named, field, listed, required⟩
  have same := eq_of_realname_eq distinct member
    (mem_packages_iff.mpr ⟨id, kept⟩) named
  rw [same] at required
  exact ⟨field, listed, required⟩

/-! ## Gains -/

/-- All that shows in the marks afterwards but did not before comes with a
property of the name. -/
def Gains (gained : Marks → Bool) (property : String → Prop)
    (before after : Catalogue) : Prop :=
  ∀ id package, after.package? id = some package →
    gained package.marks = true →
    (∃ earlier, before.package? id = some earlier ∧
      gained earlier.marks = true) ∨ property package.realname

namespace Gains

variable {gained : Marks → Bool} {property : String → Prop}

theorem refl (catalogue : Catalogue) :
    Gains gained property catalogue catalogue :=
  fun _ package held shows => .inl ⟨package, held, shows⟩

theorem trans {before between after : Catalogue}
    (first : Gains gained property before between)
    (second : Gains gained property between after)
    (extended : after.Extends between) : Gains gained property before after := by
  intro id package held shows
  rcases second id package held shows with ⟨middle, kept, showed⟩ | gains
  · rcases extended id middle kept with ⟨marks, same⟩
    have marked := Option.some.inj (held.symm.trans same)
    rw [marked, Package.realname_mark]
    exact first id middle kept showed
  · exact .inr gains

/-- What holds of a first state and of all gains holds in the end. -/
theorem of_empty {after : Catalogue}
    (gains : Gains gained property .empty after) {package : Package}
    (member : package ∈ after.packages)
    (shows : gained package.marks = true) : property package.realname := by
  rcases mem_packages_iff.mp member with ⟨id, held⟩
  rcases gains id package held shows with ⟨earlier, absurd, _⟩ | property
  · simp [package?, empty] at absurd
  · exact property

end Gains

theorem gains_mergeMarks {gained : Marks → Bool} {property : String → Prop}
    {catalogue : Catalogue} {id : Nat} {package : Package} {marks : Marks}
    (held : catalogue.package? id = some package)
    (gains : gained (package.marks.union marks) = true →
      gained package.marks = true ∨ property package.realname) :
    Gains gained property catalogue (catalogue.mergeMarks id marks) := by
  intro other marked kept shows
  rw [package?_mergeMarks] at kept
  split at kept
  next same =>
    cases same
    rw [held, Option.map_some] at kept
    cases kept
    rcases gains shows with shown | gained
    · exact .inl ⟨package, held, shown⟩
    · exact .inr gained
  · exact .inl ⟨marked, kept, shows⟩

theorem gains_enrol {gained : Marks → Bool} {property : String → Prop}
    {package : Package} {marks : Marks} (catalogue : Catalogue)
    (gains : gained (package.marks.union marks) = true →
      property package.realname) :
    Gains gained property catalogue (catalogue.enrol package marks) := by
  intro id marked kept shows
  rw [package?_enrol] at kept
  split at kept
  · cases kept
    exact .inr (gains shows)
  · exact .inl ⟨marked, kept, shows⟩

end Catalogue

/-! ## Readings -/

namespace Reads

variable {settings : Settings} {opened depth : Nat} {marks : Marks}
  {position final : Position} {tokens : List String} {before after : Catalogue}

theorem extended (reads : Reads settings opened depth marks position tokens
    before final after) : after.Extends before := by
  induction reads with
  | done => exact .refl _
  | version _ _ _ rest => exact rest
  | operator _ _ _ _ rest => exact rest
  | known _ _ _ _ _ rest => exact rest.trans (Catalogue.extends_mergeMarks _ _ _)
  | promoted _ _ _ _ _ _ _ _ _ publicList rest =>
      exact rest.trans (publicList.trans (Catalogue.extends_mergeMarks _ _ _))
  | skipped _ _ _ _ _ _ rest => exact rest.trans (Catalogue.extends_enrol _ _ _)
  | loaded _ _ _ _ _ _ _ _ _ _ _ publicList privateList rest =>
      exact rest.trans (privateList.trans
        (publicList.trans (Catalogue.extends_enrol _ _ _)))

theorem nodup (reads : Reads settings opened depth marks position tokens
    before final after) (distinct : before.realnames.Nodup) :
    after.realnames.Nodup := by
  induction reads with
  | done => exact distinct
  | version _ _ _ rest => exact rest distinct
  | operator _ _ _ _ rest => exact rest distinct
  | known _ _ _ _ _ rest =>
      apply rest
      rw [Catalogue.realnames_mergeMarks]
      exact distinct
  | promoted _ _ _ _ _ _ _ _ _ publicList rest =>
      apply rest
      apply publicList
      rw [Catalogue.realnames_mergeMarks]
      exact distinct
  | skipped _ _ absent loads _ _ rest =>
      rw [← loads.realname_eq.1] at absent
      exact rest (Catalogue.nodup_enrol distinct absent _)
  | loaded _ _ absent loads _ _ _ _ _ _ _ publicList privateList rest =>
      rw [← loads.realname_eq.1] at absent
      exact rest (privateList (publicList
        (Catalogue.nodup_enrol distinct absent _)))

theorem holds (reads : Reads settings opened depth marks position tokens
    before final after) {token : String}
    (named : token ∈ packageTokens position.pending.isSome tokens) :
    after.Holds (Location.realname token) marks := by
  induction reads with
  | done => simp [packageTokens] at named
  | version pending _ _ rest =>
      rw [packageTokens_version pending] at named
      exact rest named
  | operator settled operator _ _ rest =>
      rw [packageTokens_operator settled operator] at named
      exact rest named
  | known settled names found _ reads rest =>
      rw [packageTokens_name settled names] at named
      rcases List.mem_cons.mp named with rfl | named
      · exact (Catalogue.holds_mergeMarks found _).later reads.extended
      · exact rest named
  | promoted settled names found _ _ _ publicReads _ reads _ rest =>
      rw [packageTokens_name settled names] at named
      rcases List.mem_cons.mp named with rfl | named
      · exact (Catalogue.holds_mergeMarks found _).later
          (reads.extended.trans publicReads.extended)
      · exact rest named
  | skipped settled names _ loads _ reads rest =>
      rw [packageTokens_name settled names] at named
      rcases List.mem_cons.mp named with rfl | named
      · rw [← loads.realname_eq.1]
        exact (Catalogue.holds_enrol _ _ _).later reads.extended
      · exact rest named
  | loaded settled names _ loads _ _ publicReads _ privateReads _ reads _ _
      rest =>
      rw [packageTokens_name settled names] at named
      rcases List.mem_cons.mp named with rfl | named
      · rw [← loads.realname_eq.1]
        have lists := privateReads.extended.trans publicReads.extended
        exact (Catalogue.holds_enrol _ _ _).later (reads.extended.trans lists)
      · exact rest named

end Reads

end PkgConfig
