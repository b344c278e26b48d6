import PkgConfig.Proofs.Growth

namespace PkgConfig

/-! Behind every open list stands the trail of packages whose requirements are
being read. A package that is found at the end of a trail is required along
it. -/

/-! ## Depth -/

theorem Walk.readsRequirements_of_unlimited {settings : Settings}
    (recursive : settings.isOn .skipRequires = false)
    (unlimited : maxFrames < settings.maxTraversalDepth) :
    ∀ depth, depth ≤ maxFrames → readsRequirements settings depth = true := by
  intro depth shallow
  rw [readsRequirements, recursive, Bool.not_false, Bool.true_and,
    decide_eq_true_iff]
  exact Nat.lt_of_le_of_lt shallow unlimited

/-! ## Trails -/

/-- The packages whose lists are open while a list is read, with the innermost
in front. All of them are in the catalogue with the marks they pass on. -/
structure Trail (settings : Settings) (opened depth : Nat) (marks : Marks)
    (catalogue : Catalogue) (trail : List String) : Prop where
  length_eq : trail.length = depth
  deep : depth < opened
  room : opened ≤ maxFrames
  distinct : trail.Nodup
  reads : trail ≠ [] → Walk.readsRequirements settings depth = true
  held : ∀ name ∈ trail, catalogue.Holds name marks.indirect

namespace Trail

variable {settings : Settings} {opened depth : Nat} {marks : Marks}
  {catalogue : Catalogue} {trail : List String}

theorem start (settings : Settings) :
    Trail settings 1 0 .named .empty [] where
  length_eq := rfl
  deep := Nat.zero_lt_one
  room := by decide
  distinct := List.nodup_nil
  reads := fun nonempty => absurd rfl nonempty
  held := by simp

theorem later {after : Catalogue}
    (standing : Trail settings opened depth marks catalogue trail)
    (extended : after.Extends catalogue) :
    Trail settings opened depth marks after trail where
  length_eq := standing.length_eq
  deep := standing.deep
  room := standing.room
  distinct := standing.distinct
  reads := standing.reads
  held := fun name member => (standing.held name member).later extended

theorem nested {name : String} {more : Nat} {listed : Marks}
    (standing : Trail settings opened depth marks catalogue trail)
    (fresh : name ∉ trail) (holds : catalogue.Holds name marks)
    (reads : Walk.readsRequirements settings (depth + 1) = true)
    (opens : opened < more) (room : more ≤ maxFrames)
    (passed : marks.indirect.includes listed.indirect = true) :
    Trail settings more (depth + 1) listed catalogue (name :: trail) where
  length_eq := by rw [List.length_cons, standing.length_eq]
  deep := by
    have deep := standing.deep
    omega
  room := room
  distinct := List.nodup_cons.mpr ⟨fresh, standing.distinct⟩
  reads := fun _ => reads
  held := by
    intro other member
    rcases List.mem_cons.mp member with rfl | member
    · exact (holds.weaken (Marks.includes_indirect _)).weaken passed
    · exact (standing.held other member).weaken passed

private theorem not_mem_of_absent {name : String}
    (standing : Trail settings opened depth marks catalogue trail)
    (absent : catalogue.find? name = none) : name ∉ trail := by
  intro member
  apply Catalogue.find?_eq_none_iff.mp absent
  apply Catalogue.holds_none_iff.mp
  exact (standing.held name member).weaken (Marks.includes_none _)

/-- A package that can still be exposed is not on the trail, since a list that
exposes is open for exposed packages only. -/
theorem not_mem_of_exposes {name : String} {id : Nat}
    (standing : Trail settings opened depth marks catalogue trail)
    (distinct : catalogue.realnames.Nodup)
    (found : catalogue.find? name = some id)
    (exposes : catalogue.exposes id marks = true) : name ∉ trail := by
  intro member
  rcases Catalogue.package?_of_find? found with ⟨package, held, named⟩
  rcases standing.held name member with ⟨other, listed, same, marked⟩
  have equal := Catalogue.eq_of_realname_eq distinct listed
    (Catalogue.mem_packages_iff.mpr ⟨id, held⟩) (same.trans named.symm)
  rw [equal] at marked
  simp only [Catalogue.exposes, Catalogue.marksOf, held, Bool.and_eq_true,
    Bool.not_eq_true'] at exposes
  simp [Marks.includes, Marks.indirect, exposes.1, exposes.2] at marked

/-! The trails behind the lists that a package opens. -/

private theorem enrolled_public {package : Package}
    (standing : Trail settings opened depth marks catalogue trail)
    (absent : catalogue.find? package.realname = none)
    (reads : Walk.readsRequirements settings (depth + 1) = true)
    (room : opened + 2 ≤ maxFrames) :
    Trail settings (opened + 2) (depth + 1) marks.indirect
      (catalogue.enrol package marks) (package.realname :: trail) := by
  have enrolled := standing.later (Catalogue.extends_enrol _ package marks)
  apply enrolled.nested (standing.not_mem_of_absent absent)
    (Catalogue.holds_enrol _ _ _) reads
  · omega
  · exact room
  · exact Marks.includes_refl _

private theorem enrolled_private {package : Package}
    (standing : Trail settings opened depth marks catalogue trail)
    (absent : catalogue.find? package.realname = none)
    (reads : Walk.readsRequirements settings (depth + 1) = true)
    (room : opened + 2 ≤ maxFrames) :
    Trail settings (opened + 1) (depth + 1) .none
      (catalogue.enrol package marks) (package.realname :: trail) := by
  have enrolled := standing.later (Catalogue.extends_enrol _ package marks)
  apply enrolled.nested (standing.not_mem_of_absent absent)
    (Catalogue.holds_enrol _ _ _) reads
  · omega
  · omega
  · exact Marks.includes_none _

theorem promoted {name : String} {id : Nat}
    (standing : Trail settings opened depth marks catalogue trail)
    (distinct : catalogue.realnames.Nodup)
    (found : catalogue.find? name = some id)
    (exposes : catalogue.exposes id marks = true)
    (reads : Walk.readsRequirements settings (depth + 1) = true)
    (room : opened + 1 ≤ maxFrames) :
    Trail settings (opened + 1) (depth + 1) marks.indirect
      (catalogue.mergeMarks id marks) (name :: trail) := by
  have merged := standing.later (Catalogue.extends_mergeMarks _ id marks)
  apply merged.nested (standing.not_mem_of_exposes distinct found exposes)
    (Catalogue.holds_mergeMarks found _) reads
  · omega
  · exact room
  · exact Marks.includes_refl _

end Trail

/-! ## Discovery -/

/-- How a package came into the catalogue: along a chain without repetition,
whose lists were open when it was found. Its own requirements were read if the
depth allowed it. -/
structure Discovered (settings : Settings) (asked : List String)
    (whole : Catalogue) (name : String) (trail : List String) : Prop where
  chain : Chain (whole.Requires Field.requirements) asked (name :: trail)
  distinct : (name :: trail).Nodup
  bounded : trail.length < maxFrames
  reads : trail ≠ [] → Walk.readsRequirements settings trail.length = true
  complete : Walk.readsRequirements settings (trail.length + 1) = true →
    ∀ next, whole.Requires Field.requirements name next →
      next ∈ whole.realnames

theorem Trail.discovered {settings : Settings} {opened depth : Nat}
    {marks : Marks} {catalogue whole : Catalogue} {trail asked : List String}
    {name : String}
    (standing : Trail settings opened depth marks catalogue trail)
    (fresh : name ∉ trail)
    (chain : Chain (whole.Requires Field.requirements) asked (name :: trail))
    (complete : Walk.readsRequirements settings (depth + 1) = true →
      ∀ next, whole.Requires Field.requirements name next →
        next ∈ whole.realnames) :
    Discovered settings asked whole name trail where
  chain := chain
  distinct := List.nodup_cons.mpr ⟨fresh, standing.distinct⟩
  bounded := by
    rw [standing.length_eq]
    exact Nat.lt_of_lt_of_le standing.deep standing.room
  reads := by
    rw [standing.length_eq]
    exact standing.reads
  complete := by
    rw [standing.length_eq]
    exact complete

namespace Reads

variable {settings : Settings} {opened depth : Nat} {marks : Marks}
  {position final : Position} {tokens trail asked : List String}
  {before after whole : Catalogue}

theorem requires_of_named {package : Package} {field : Field} {id : Nat}
    {fields : List Field} {token : String}
    (extended : whole.Extends before)
    (held : before.package? id = some package) (listed : field ∈ fields)
    (named : token ∈ packageTokens false (Text.tokens (package.field field))) :
    whole.Requires fields package.realname (Location.realname token) :=
  extended.requires held listed (List.mem_map_of_mem named)

private theorem requires_of_enrolled {catalogue : Catalogue} {package : Package}
    {marks : Marks} {field : Field} {fields : List Field} {token : String}
    (extended : whole.Extends (catalogue.enrol package marks))
    (listed : field ∈ fields)
    (named : token ∈ packageTokens false (Text.tokens (package.field field))) :
    whole.Requires fields package.realname (Location.realname token) := by
  have held := Catalogue.package?_enrol_size catalogue package marks
  have edge := requires_of_named extended held listed named
  exact edge

theorem holds_of_required {package : Package} {field : Field} {next : String}
    (reads : Reads settings opened depth marks .start
      (Text.tokens (package.field field)) before final after)
    (required : next ∈ package.requires field) : after.Holds next marks := by
  rcases List.mem_map.mp required with ⟨token, named, rfl⟩
  exact reads.holds named

private theorem complete_of_lists {catalogue between : Catalogue}
    {package : Package}
    {marks publicMarks privateMarks : Marks} {opened depth privateOpened : Nat}
    {publicEnding privateEnding : Position}
    (publicReads : Reads settings opened depth publicMarks .start
      (Text.tokens (package.field .requires))
      (catalogue.enrol package marks) publicEnding between)
    (privateReads : Reads settings privateOpened depth privateMarks .start
      (Text.tokens (package.field .requiresPrivate)) between privateEnding
      after)
    (extended : whole.Extends after) (unique : whole.realnames.Nodup)
    {next : String}
    (requires : whole.Requires Field.requirements package.realname next) :
    next ∈ whole.realnames := by
  have afterPublic := extended.trans privateReads.extended
  have enrolled := afterPublic.trans publicReads.extended
  rcases enrolled.of_requires unique (Catalogue.package?_enrol_size _ _ _)
    requires with ⟨field, listed, required⟩
  apply Catalogue.holds_none_iff.mp
  rcases List.mem_pair.mp listed with rfl | rfl
  · have holds := holds_of_required publicReads required
    exact (holds.later afterPublic).weaken (Marks.includes_none _)
  · have holds := holds_of_required privateReads required
    exact (holds.later extended).weaken (Marks.includes_none _)

end Reads

/-- A list that is read under a trail which its names continue. -/
structure Leads (settings : Settings) (asked : List String) (whole : Catalogue)
    (opened depth : Nat) (marks : Marks) (catalogue : Catalogue)
    (trail tokens : List String) : Prop where
  distinct : catalogue.realnames.Nodup
  standing : Trail settings opened depth marks catalogue trail
  chains : ∀ token ∈ tokens, Chain (whole.Requires Field.requirements) asked
    (Location.realname token :: trail)

namespace Leads

variable {settings : Settings} {asked trail tokens : List String}
  {whole catalogue : Catalogue} {opened depth : Nat} {marks : Marks}
  {token : String} {package : Package}

theorem tail
    (leads : Leads settings asked whole opened depth marks catalogue trail
      (token :: tokens)) :
    Leads settings asked whole opened depth marks catalogue trail tokens where
  distinct := leads.distinct
  standing := leads.standing
  chains := (List.forall_mem_cons.mp leads.chains).2

theorem later {after : Catalogue}
    (leads : Leads settings asked whole opened depth marks catalogue trail
      tokens)
    (extended : after.Extends catalogue) (distinct : after.realnames.Nodup) :
    Leads settings asked whole opened depth marks after trail tokens where
  distinct := distinct
  standing := leads.standing.later extended
  chains := leads.chains

theorem merged
    (leads : Leads settings asked whole opened depth marks catalogue trail
      tokens) (id : Nat) :
    Leads settings asked whole opened depth marks
      (catalogue.mergeMarks id marks) trail tokens := by
  apply leads.later (Catalogue.extends_mergeMarks _ _ _)
  rw [Catalogue.realnames_mergeMarks]
  exact leads.distinct

theorem promoted {id : Nat}
    (leads : Leads settings asked whole opened depth marks catalogue trail
      (token :: tokens))
    (found : catalogue.find? (Location.realname token) = some id)
    (exposes : catalogue.exposes id marks = true)
    (readable : Walk.readsRequirements settings (depth + 1) = true)
    (room : opened + 1 ≤ maxFrames)
    (kept : whole.Extends (catalogue.mergeMarks id marks)) :
    Leads settings asked whole (opened + 1) (depth + 1) marks.indirect
      (catalogue.mergeMarks id marks) (Location.realname token :: trail)
      (packageTokens false (catalogue.requirements id .requires)) where
  distinct := (leads.merged id).distinct
  standing := leads.standing.promoted leads.distinct found exposes readable room
  chains := by
    intro next named
    rcases Catalogue.package?_of_find? found with ⟨package, held, same⟩
    have lead := (List.forall_mem_cons.mp leads.chains).1
    rw [Catalogue.requirements_eq held] at named
    rw [← same] at lead ⊢
    exact lead.required (Reads.requires_of_named
      (kept.trans (Catalogue.extends_mergeMarks _ _ _)) held
      Field.requires_mem_requirements named)

theorem start (settings : Settings) (arguments : List String) :
    Leads settings (namesInArguments arguments) whole 1 0 .named .empty []
      (packageTokens false (arguments.flatMap Text.tokens)) where
  distinct := List.nodup_nil
  standing := .start settings
  chains := fun _ named => .asked (List.mem_map_of_mem named)

section Loaded

variable
  (leads : Leads settings asked whole opened depth marks catalogue trail
    (token :: tokens))
  (absent : catalogue.find? (Location.realname token) = none)
  (loads : Package.Loads settings token package)

include leads absent loads

theorem enrolled :
    Leads settings asked whole opened depth marks
      (catalogue.enrol package marks) trail tokens := by
  apply leads.tail.later (Catalogue.extends_enrol _ _ _)
  rw [← loads.realname_eq.1] at absent
  exact Catalogue.nodup_enrol leads.distinct absent _

theorem discovered
    (complete : Walk.readsRequirements settings (depth + 1) = true →
      ∀ next, whole.Requires Field.requirements package.realname next →
        next ∈ whole.realnames) :
    Discovered settings asked whole package.realname trail := by
  have fresh := leads.standing.not_mem_of_absent absent
  have lead := (List.forall_mem_cons.mp leads.chains).1
  rw [← loads.realname_eq.1] at fresh lead
  exact leads.standing.discovered fresh lead complete

section Lists

variable (readable : Walk.readsRequirements settings (depth + 1) = true)
  (room : opened + 2 ≤ maxFrames)
  (kept : whole.Extends (catalogue.enrol package marks))

include readable room kept

private theorem enrolled_public :
    Leads settings asked whole (opened + 2) (depth + 1) marks.indirect
      (catalogue.enrol package marks) (package.realname :: trail)
      (packageTokens false (Text.tokens (package.field .requires))) where
  distinct := (leads.enrolled absent loads).distinct
  standing := by
    rw [← loads.realname_eq.1] at absent
    exact leads.standing.enrolled_public absent readable room
  chains := by
    intro next named
    have lead := (List.forall_mem_cons.mp leads.chains).1
    rw [← loads.realname_eq.1] at lead
    exact lead.required (Reads.requires_of_enrolled kept
      Field.requires_mem_requirements named)

private theorem enrolled_private :
    Leads settings asked whole (opened + 1) (depth + 1) .none
      (catalogue.enrol package marks) (package.realname :: trail)
      (packageTokens false (Text.tokens (package.field .requiresPrivate))) where
  distinct := (leads.enrolled absent loads).distinct
  standing := by
    rw [← loads.realname_eq.1] at absent
    exact leads.standing.enrolled_private absent readable room
  chains := by
    intro next named
    have lead := (List.forall_mem_cons.mp leads.chains).1
    rw [← loads.realname_eq.1] at lead
    exact lead.required (Reads.requires_of_enrolled kept
      Field.requiresPrivate_mem_requirements named)

end Lists

end Loaded

end Leads

namespace Reads

variable {settings : Settings} {opened depth : Nat} {marks : Marks}
  {position final : Position} {tokens trail asked : List String}
  {before after whole : Catalogue}

/-! What a token leaves to be read: the lists that it opens, and the rest of its
own. -/

theorem leads_of_promoted {id : Nat} {token : String} {ending : Position}
    {between : Catalogue}
    (leads : Leads settings asked whole opened depth marks before trail
      (token :: tokens))
    (found : before.find? (Location.realname token) = some id)
    (exposes : before.exposes id marks = true)
    (readable : Walk.readsRequirements settings (depth + 1) = true)
    (room : opened + 1 ≤ maxFrames)
    (publicReads : Reads settings (opened + 1) (depth + 1) marks.indirect .start
      (before.requirements id .requires) (before.mergeMarks id marks) ending
      between)
    (extended : whole.Extends between) :
    Leads settings asked whole (opened + 1) (depth + 1) marks.indirect
        (before.mergeMarks id marks) (Location.realname token :: trail)
        (packageTokens false (before.requirements id .requires)) ∧
      Leads settings asked whole opened depth marks between trail tokens := by
  have nested := leads.promoted found exposes readable room
    (extended.trans publicReads.extended)
  exact ⟨nested, (leads.tail.merged id).later publicReads.extended
    (publicReads.nodup nested.distinct)⟩

theorem leads_of_loaded {token : String} {package : Package}
    {publicEnding privateEnding : Position} {between later : Catalogue}
    (leads : Leads settings asked whole opened depth marks before trail
      (token :: tokens))
    (absent : before.find? (Location.realname token) = none)
    (loads : Package.Loads settings token package)
    (readable : Walk.readsRequirements settings (depth + 1) = true)
    (room : opened + 2 ≤ maxFrames)
    (publicReads : Reads settings (opened + 2) (depth + 1) marks.indirect .start
      (Text.tokens (package.field .requires)) (before.enrol package marks)
      publicEnding between)
    (privateReads : Reads settings (opened + 1) (depth + 1) .none .start
      (Text.tokens (package.field .requiresPrivate)) between privateEnding
      later)
    (extended : whole.Extends later) :
    Leads settings asked whole (opened + 2) (depth + 1) marks.indirect
        (before.enrol package marks) (package.realname :: trail)
        (packageTokens false (Text.tokens (package.field .requires))) ∧
      Leads settings asked whole (opened + 1) (depth + 1) .none between
        (package.realname :: trail)
        (packageTokens false (Text.tokens (package.field .requiresPrivate))) ∧
      Leads settings asked whole opened depth marks later trail tokens := by
  have kept := (extended.trans privateReads.extended).trans publicReads.extended
  have enrolled := leads.enrolled absent loads
  have distinct := publicReads.nodup enrolled.distinct
  have inPublic := leads.enrolled_public absent loads readable room kept
  have inPrivate := leads.enrolled_private absent loads readable room kept
  exact ⟨inPublic, inPrivate.later publicReads.extended distinct,
    (enrolled.later publicReads.extended distinct).later privateReads.extended
      (privateReads.nodup distinct)⟩

/-- Whatever is new in the catalogue was discovered, if the names in the list
continue the trail. -/
theorem discovered
    (reads : Reads settings opened depth marks position tokens before final
      after)
    (extended : whole.Extends after) (unique : whole.realnames.Nodup)
    (leads : Leads settings asked whole opened depth marks before trail
      (packageTokens position.pending.isSome tokens)) :
    Catalogue.Gains (fun _ => true)
      (fun name => ∃ trail, Discovered settings asked whole name trail)
      before after := by
  -- Nested lists are read under a longer trail.
  induction reads generalizing trail with
  | done => exact .refl _
  | version pending _ _ rest =>
      rw [packageTokens_version pending] at leads
      exact rest extended leads
  | operator settled operator _ _ rest =>
      rw [packageTokens_operator settled operator] at leads
      exact rest extended leads
  | known settled names found _ reads rest =>
      rw [packageTokens_name settled names] at leads
      rcases Catalogue.package?_of_find? found with ⟨package, held, _⟩
      exact (Catalogue.gains_mergeMarks held fun _ => .inl rfl).trans
        (rest extended (leads.tail.merged _)) reads.extended
  | promoted settled names found exposes readable room publicReads _ reads
      publicList rest =>
      rw [packageTokens_name settled names] at leads
      rcases Catalogue.package?_of_find? found with ⟨package, held, _⟩
      have afterPublic := extended.trans reads.extended
      rcases leads_of_promoted leads found exposes readable room publicReads
        afterPublic with ⟨nested, remaining⟩
      exact ((Catalogue.gains_mergeMarks held fun _ => .inl rfl).trans
        (publicList afterPublic nested) publicReads.extended).trans
        (rest extended remaining) reads.extended
  | skipped settled names absent loads closed reads rest =>
      rw [packageTokens_name settled names] at leads
      have found := leads.discovered absent loads fun readable =>
        absurd (closed.symm.trans readable) Bool.false_ne_true
      exact (Catalogue.gains_enrol _ fun _ => ⟨trail, found⟩).trans
        (rest extended (leads.enrolled absent loads)) reads.extended
  | loaded settled names absent loads readable room publicReads _ privateReads _
      reads publicList privateList rest =>
      rw [packageTokens_name settled names] at leads
      have afterLists := extended.trans reads.extended
      have afterPublic := afterLists.trans privateReads.extended
      have found := leads.discovered absent loads fun _ _ requires =>
        complete_of_lists publicReads privateReads afterLists unique requires
      rcases leads_of_loaded leads absent loads readable room publicReads
        privateReads afterLists with ⟨inPublic, inPrivate, remaining⟩
      exact (((Catalogue.gains_enrol _ fun _ => ⟨trail, found⟩).trans
        (publicList afterPublic inPublic) publicReads.extended).trans
        (privateList afterLists inPrivate) privateReads.extended).trans
        (rest extended remaining) reads.extended

end Reads

end PkgConfig
