import PkgConfig.Proofs.Growth

namespace PkgConfig

/-! Version constraints as they are written. A list is cut into requirements by
its tokens alone; what has been read of it is then described by the requirements
that are met already and the one that is still open. -/

/-! ## Requirements -/

inductive Requirement where
  | package (name : String)
  | constraint (name : String) (comparator : Comparator) (version : String)
  /-- An operator with no package directly before it. -/
  | stray (operator : String)
  /-- An operator with no version after it. -/
  | unfinished (name : String) (comparator : Comparator)
  deriving DecidableEq, Repr

namespace Requirement

/-- Whatever follows an operator is its version, even if it looks like an
operator. -/
def ofTokens : List String → List Requirement
  | [] => []
  | token :: rest =>
      if (Comparator.ofToken? token).isSome then .stray token :: ofTokens rest
      else
        match rest with
        | [] => [.package token]
        | operator :: rest =>
            match Comparator.ofToken? operator with
            | none => .package token :: ofTokens (operator :: rest)
            | some comparator =>
                match rest with
                | [] => [.unfinished token comparator]
                | version :: rest =>
                    .constraint token comparator version :: ofTokens rest

example : ofTokens ["a", "b", ">=", "<", "=", "c", "<"] =
    [.package "a", .constraint "b" .greaterOrEqual "<", .stray "=",
      .unfinished "c" .less] := by decide

def BeginsAnew (tokens : List String) : Prop :=
  ∀ token ∈ tokens.head?, Comparator.ofToken? token = none

section

variable {name token version : String} {comparator : Comparator}
  {rest : List String}

private theorem beginsAnew_nil : BeginsAnew [] := by simp [BeginsAnew]

private theorem beginsAnew_cons (names : Comparator.ofToken? name = none) :
    BeginsAnew (name :: rest) := by
  simpa [BeginsAnew] using names

private theorem ofTokens_package (names : Comparator.ofToken? name = none)
    (anew : BeginsAnew rest) :
    ofTokens (name :: rest) = .package name :: ofTokens rest := by
  cases rest with
  | nil => simp [ofTokens, names]
  | cons next rest =>
      have plain : Comparator.ofToken? next = none := anew next rfl
      rw [ofTokens]
      simp [names, plain]

theorem ofTokens_constraint (names : Comparator.ofToken? name = none)
    (operator : Comparator.ofToken? token = some comparator) :
    ofTokens (name :: token :: version :: rest) =
      .constraint name comparator version :: ofTokens rest := by
  rw [ofTokens]
  simp [names, operator]

end

/-- The constraint is one of the requirements in `said ++ tokens`, and its
version is among the `tokens`. -/
def EndsWithin (said tokens : List String) (name : String)
    (comparator : Comparator) (version : String) : Prop :=
  ∃ earlier front back, tokens = front ++ version :: back ∧
    ofTokens (said ++ tokens) =
      earlier ++ .constraint name comparator version :: ofTokens back

namespace EndsWithin

variable {said tokens : List String} {token name version : String}
  {comparator : Comparator}

theorem cons
    (within : EndsWithin (said ++ [token]) tokens name comparator version) :
    EndsWithin said (token :: tokens) name comparator version := by
  rcases within with ⟨earlier, front, back, rfl, cut⟩
  refine ⟨earlier, token :: front, back, rfl, ?_⟩
  rw [List.append_cons]
  exact cut

theorem mem (within : EndsWithin said tokens name comparator version) :
    .constraint name comparator version ∈ ofTokens (said ++ tokens) := by
  rcases within with ⟨earlier, front, back, _, cut⟩
  rw [cut]
  exact List.mem_append_right _ (List.mem_cons_self ..)

end EndsWithin

end Requirement

/-! ## Met requirements -/

namespace Catalogue

/-- A catalogue meets no requirement that is not written properly. -/
def Meets (catalogue : Catalogue) : Requirement → Prop
  | .package name => Location.realname name ∈ catalogue.realnames
  | .constraint name comparator version =>
      ∃ package ∈ catalogue.packages,
        package.realname = Location.realname name ∧
          comparator.holds package.version version = true
  | .stray _ => False
  | .unfinished _ _ => False

def MeetsAll (catalogue : Catalogue) (tokens : List String) : Prop :=
  ∀ requirement ∈ Requirement.ofTokens tokens, catalogue.Meets requirement

structure Settles (catalogue : Catalogue) (said : List String) : Prop where
  met : catalogue.MeetsAll said
  separate : ∀ rest, Requirement.BeginsAnew rest →
    Requirement.ofTokens (said ++ rest) =
      Requirement.ofTokens said ++ Requirement.ofTokens rest

def Places (catalogue : Catalogue) (id : Nat) (name : String) : Prop :=
  ∃ package, catalogue.package? id = some package ∧
    package.realname = Location.realname name

/-- A reader that has come this far in a list stands at this position. -/
inductive Stands (catalogue : Catalogue) : List String → Position → Prop
  | settled (settled : catalogue.Settles said) : Stands catalogue said .start
  | named {id : Nat} (settled : catalogue.Settles said)
      (names : Comparator.ofToken? name = none)
      (placed : catalogue.Places id name) :
      Stands catalogue (said ++ [name]) ⟨some id, none⟩
  | awaiting {id : Nat} (settled : catalogue.Settles said)
      (names : Comparator.ofToken? name = none)
      (placed : catalogue.Places id name)
      (operator : Comparator.ofToken? token = some comparator) :
      Stands catalogue (said ++ [name, token]) ⟨some id, some comparator⟩

/-! ## Growing catalogues -/

section

variable {before after : Catalogue} (extended : after.Extends before)

include extended

theorem Places.later {id : Nat} {name : String}
    (placed : before.Places id name) : after.Places id name := by
  rcases placed with ⟨package, held, called⟩
  rcases extended id package held with ⟨marks, kept⟩
  exact ⟨_, kept, called⟩

theorem Meets.later {requirement : Requirement}
    (meets : before.Meets requirement) : after.Meets requirement := by
  cases requirement with
  | package name => exact extended.mem_realnames meets
  | constraint name comparator version =>
      rcases meets with ⟨package, member, called, holds⟩
      rcases mem_packages_iff.mp member with ⟨id, held⟩
      rcases extended id package held with ⟨marks, kept⟩
      exact ⟨_, mem_packages_iff.mpr ⟨id, kept⟩, called, holds⟩
  | stray => exact meets
  | unfinished => exact meets

theorem Settles.later {said : List String} (settled : before.Settles said) :
    after.Settles said where
  met requirement member := (settled.met requirement member).later extended
  separate := settled.separate

theorem Stands.later {said : List String} {position : Position}
    (stands : before.Stands said position) : after.Stands said position := by
  cases stands with
  | settled settled => exact .settled (settled.later extended)
  | named settled names placed =>
      exact .named (settled.later extended) names (placed.later extended)
  | awaiting settled names placed operator =>
      exact .awaiting (settled.later extended) names (placed.later extended)
        operator

end

private theorem Extends.eq_mark {before after : Catalogue}
    (extended : after.Extends before) (distinct : after.realnames.Nodup)
    {id : Nat} {package other : Package}
    (held : before.package? id = some package)
    (listed : other ∈ after.packages)
    (called : other.realname = package.realname) :
    ∃ marks, other = package.mark marks := by
  rcases extended id package held with ⟨marks, kept⟩
  exact ⟨marks, eq_of_realname_eq distinct listed
    (mem_packages_iff.mpr ⟨id, kept⟩) called⟩

/-! ## Reading on -/

namespace Settles

variable {catalogue : Catalogue} {said : List String} {name token : String}

theorem nil (catalogue : Catalogue) : catalogue.Settles [] where
  met requirement member := by cases member
  separate rest _ := rfl

theorem named (settled : catalogue.Settles said)
    (names : Comparator.ofToken? name = none) {id : Nat}
    (placed : catalogue.Places id name) :
    catalogue.Settles (said ++ [name]) := by
  have single : Requirement.ofTokens (said ++ [name]) =
      Requirement.ofTokens said ++ [.package name] := by
    rw [settled.separate _ (Requirement.beginsAnew_cons names),
      Requirement.ofTokens_package names Requirement.beginsAnew_nil]
    rfl
  refine ⟨?met, ?separate⟩
  case met =>
    intro requirement member
    rw [single] at member
    rcases List.mem_append.mp member with earlier | last
    · exact settled.met requirement earlier
    · rw [List.mem_singleton.mp last]
      rcases placed with ⟨package, held, called⟩
      have member := mem_packages_iff.mpr ⟨id, held⟩
      exact List.mem_map.mpr ⟨package, member, called⟩
  case separate =>
    intro rest anew
    rw [single, List.append_assoc, List.append_assoc, List.singleton_append,
      settled.separate _ (Requirement.beginsAnew_cons names),
      Requirement.ofTokens_package names anew]
    rfl

theorem ofTokens_constraint (settled : catalogue.Settles said)
    (names : Comparator.ofToken? name = none) {comparator : Comparator}
    (operator : Comparator.ofToken? token = some comparator)
    (version : String) (rest : List String) :
    Requirement.ofTokens (said ++ name :: token :: version :: rest) =
      Requirement.ofTokens said ++
        .constraint name comparator version :: Requirement.ofTokens rest := by
  rw [settled.separate _ (Requirement.beginsAnew_cons names),
    Requirement.ofTokens_constraint names operator]

theorem constraint (settled : catalogue.Settles said)
    (names : Comparator.ofToken? name = none) {comparator : Comparator}
    (operator : Comparator.ofToken? token = some comparator) {version : String}
    (meets : catalogue.Meets (.constraint name comparator version)) :
    catalogue.Settles (said ++ [name, token, version]) := by
  have whole := settled.ofTokens_constraint names operator version
  refine ⟨?met, ?separate⟩
  case met =>
    intro requirement member
    rw [whole] at member
    rcases List.mem_append.mp member with earlier | last
    · exact settled.met requirement earlier
    · rw [List.mem_singleton.mp last]
      exact meets
  case separate =>
    intro rest _
    rw [List.append_assoc, whole [], List.append_assoc]
    exact whole rest

end Settles

namespace Stands

variable {catalogue : Catalogue} {said : List String} {position : Position}
  {token : String}

theorem nil (catalogue : Catalogue) : catalogue.Stands [] .start :=
  .settled (.nil catalogue)

theorem complete (stands : catalogue.Stands said position)
    (closed : position.pending = none) : catalogue.Settles said := by
  cases stands with
  | settled settled => exact settled
  | named settled names placed => exact settled.named names placed
  | awaiting => cases closed

theorem known (stands : catalogue.Stands said position)
    (closed : position.pending = none)
    (names : Comparator.ofToken? token = none) {id : Nat}
    (found : catalogue.find? (Location.realname token) = some id)
    (marks : Marks) :
    (catalogue.mergeMarks id marks).Stands (said ++ [token])
      ⟨some id, none⟩ := by
  have extended := extends_mergeMarks catalogue id marks
  have placed : catalogue.Places id token := package?_of_find? found
  exact .named ((stands.complete closed).later extended) names
    (placed.later extended)

theorem enrolled (stands : catalogue.Stands said position)
    (closed : position.pending = none)
    (names : Comparator.ofToken? token = none) {settings : Settings}
    {package : Package} (loads : Package.Loads settings token package)
    (marks : Marks) :
    (catalogue.enrol package marks).Stands (said ++ [token])
      ⟨some catalogue.size, none⟩ :=
  .named ((stands.complete closed).later (extends_enrol _ _ _)) names
    ⟨_, package?_enrol_size _ _ _, loads.realname_eq.1⟩

theorem operator (stands : catalogue.Stands said position) {id : Nat}
    (closed : position.pending = none) (applies : position.last = some id)
    {comparator : Comparator}
    (operator : Comparator.ofToken? token = some comparator) :
    catalogue.Stands (said ++ [token]) ⟨some id, some comparator⟩ := by
  cases stands with
  | settled => cases applies
  | named settled names placed =>
      cases applies
      rw [List.append_assoc]
      exact .awaiting settled names placed operator
  | awaiting => cases closed

theorem exists_awaiting {comparator : Comparator}
    (stands : catalogue.Stands said position)
    (pending : position.pending = some comparator) :
    ∃ earlier name operator package, said = earlier ++ [name, operator] ∧
      catalogue.Settles earlier ∧ Comparator.ofToken? name = none ∧
      Comparator.ofToken? operator = some comparator ∧
      position.last.bind catalogue.package? = some package ∧
      package.realname = Location.realname name := by
  cases stands with
  | settled => cases pending
  | named => cases pending
  | awaiting settled names placed operator =>
      cases pending
      rcases placed with ⟨package, held, called⟩
      exact ⟨_, _, _, package, rfl, settled, names, operator, held, called⟩

theorem version {settings : Settings}
    (checked : settings.isOn .ignoreVersions = false)
    (stands : catalogue.Stands said position) {comparator : Comparator}
    (pending : position.pending = some comparator)
    (satisfied : catalogue.Satisfies settings position.last comparator token) :
    catalogue.Stands (said ++ [token]) .start := by
  rcases stands.exists_awaiting pending with ⟨earlier, name, operator, package,
    rfl, settled, names, operates, held, called⟩
  have holds := satisfied checked package held
  rcases Option.bind_eq_some_iff.mp held with ⟨id, _, held⟩
  rw [List.append_assoc]
  exact .settled (settled.constraint names operates
    ⟨package, mem_packages_iff.mpr ⟨id, held⟩, called, holds⟩)

end Stands

end Catalogue

/-! ## Readings -/

namespace Reads

variable {settings : Settings}
  (checked : settings.isOn .ignoreVersions = false)
  {opened depth : Nat} {marks : Marks} {position final : Position}
  {tokens said : List String} {before after whole : Catalogue}

include checked

/-- All that is read is met, up to a requirement that the list leaves open. -/
theorem stands
    (reads : Reads settings opened depth marks position tokens before final
      after)
    (stands : before.Stands said position) :
    after.Stands (said ++ tokens) final := by
  induction reads generalizing said with
  | done =>
      rw [List.append_nil]
      exact stands
  | version pending satisfied _ rest =>
      rw [List.append_cons]
      exact rest (stands.version checked pending satisfied)
  | operator settled operator applies _ rest =>
      rw [List.append_cons]
      exact rest (stands.operator settled applies operator)
  | known settled names found _ _ rest =>
      rw [List.append_cons]
      exact rest (stands.known settled names found _)
  | promoted settled names found _ _ _ publicReads _ _ _ rest =>
      rw [List.append_cons]
      exact rest ((stands.known settled names found _).later
        publicReads.extended)
  | skipped settled names _ loads _ _ rest =>
      rw [List.append_cons]
      exact rest (stands.enrolled settled names loads _)
  | loaded settled names _ loads _ _ publicReads _ privateReads _ _ _ _ rest =>
      have lists := privateReads.extended.trans publicReads.extended
      rw [List.append_cons]
      exact rest ((stands.enrolled settled names loads _).later lists)

theorem settles
    (reads : Reads settings opened depth marks .start tokens before final
      after)
    (complete : final.pending = none) : after.Settles tokens :=
  (reads.stands checked (.nil before)).complete complete

/-- The lists of a new package are met, as long as requirements are read at every
depth. -/
theorem lists_met
    (readable : ∀ depth, depth ≤ maxFrames →
      Walk.readsRequirements settings depth = true)
    (reads : Reads settings opened depth marks position tokens before final
      after)
    (deep : depth < opened) (room : opened ≤ maxFrames)
    (extended : whole.Extends after) (unique : whole.realnames.Nodup) :
    Catalogue.Gains (fun _ => true)
      (fun name => ∀ package ∈ whole.packages, package.realname = name →
        ∀ field ∈ Field.requirements,
          whole.MeetsAll (Text.tokens (package.field field)))
      before after := by
  induction reads with
  | done => exact .refl _
  | version _ _ _ rest => exact rest deep room extended
  | operator _ _ _ _ rest => exact rest deep room extended
  | known _ _ found _ reads rest =>
      rcases Catalogue.package?_of_find? found with ⟨package, held, _⟩
      exact (Catalogue.gains_mergeMarks held fun _ => .inl rfl).trans
        (rest deep room extended) reads.extended
  | promoted _ _ found _ _ within publicReads _ reads publicList rest =>
      rcases Catalogue.package?_of_find? found with ⟨package, held, _⟩
      have afterPublic := extended.trans reads.extended
      exact ((Catalogue.gains_mergeMarks held fun _ => .inl rfl).trans
        (publicList (by omega) within afterPublic) publicReads.extended).trans
        (rest deep room extended) reads.extended
  | skipped _ _ _ _ closed _ _ =>
      rw [readable _ (by omega)] at closed
      cases closed
  | loaded _ _ _ _ _ within publicReads publicComplete privateReads
      privateComplete reads publicList privateList rest =>
      have afterLists := extended.trans reads.extended
      have afterPublic := afterLists.trans privateReads.extended
      have enrolled := afterPublic.trans publicReads.extended
      refine (((Catalogue.gains_enrol _ fun _ => ?own).trans
        (publicList (by omega) within afterPublic) publicReads.extended).trans
        (privateList (by omega) (by omega) afterLists)
        privateReads.extended).trans (rest deep room extended) reads.extended
      case own =>
        intro other listed called field required
        rcases enrolled.eq_mark unique (Catalogue.package?_enrol_size _ _ _)
          listed called with ⟨marks, rfl⟩
        rcases List.mem_cons.mp required with rfl | required
        · exact ((publicReads.settles checked publicComplete).later
            afterPublic).met
        · rw [List.mem_singleton.mp required]
          exact ((privateReads.settles checked privateComplete).later
            afterLists).met

end Reads

end PkgConfig
