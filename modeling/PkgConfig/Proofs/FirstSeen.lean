import PkgConfig.Proofs.Trail

namespace PkgConfig

/-! The order of the catalogue. Packages stand in it as a depth-first walk over
the names first sees them, and exposing a package again adds none. -/

/-! ## First sight -/

/-- `FirstSeen graph seen names after`: the names are walked depth-first, and
those that were not seen before are added where they are seen first. -/
inductive FirstSeen (graph : String → List String) :
    List String → List String → List String → Prop
  | done : FirstSeen graph seen [] seen
  | known (member : name ∈ seen) (rest : FirstSeen graph seen names after) :
      FirstSeen graph seen (name :: names) after
  | fresh (absent : name ∉ seen)
      (nested : FirstSeen graph (seen ++ [name]) (graph name) between)
      (rest : FirstSeen graph between names after) :
      FirstSeen graph seen (name :: names) after

namespace FirstSeen

variable {graph : String → List String}
  {seen between after left right names : List String}

theorem append (first : FirstSeen graph seen left between)
    (second : FirstSeen graph between right after) :
    FirstSeen graph seen (left ++ right) after := by
  induction first with
  | done => exact second
  | known member _ rest => exact .known member (rest second)
  | fresh absent nested _ _ rest => exact .fresh absent nested (rest second)

theorem subset (walked : FirstSeen graph seen names after) :
    seen ⊆ after := by
  induction walked with
  | done => exact List.Subset.refl _
  | known _ _ rest => exact rest
  | fresh _ _ _ nested rest =>
      exact List.Subset.trans (List.subset_append_left ..)
        (List.Subset.trans nested rest)

private theorem mem_of_mem (walked : FirstSeen graph seen names after) :
    names ⊆ after := by
  induction walked with
  | done => exact List.nil_subset _
  | known member walked rest =>
      exact List.cons_subset.mpr ⟨walked.subset member, rest⟩
  | fresh _ nested walked _ rest =>
      refine List.cons_subset.mpr ⟨walked.subset (nested.subset ?_), rest⟩
      exact List.mem_append_right _ (List.mem_singleton_self _)

private theorem eq_of_subset (walked : FirstSeen graph seen names after)
    (known : names ⊆ seen) : after = seen := by
  induction walked with
  | done => rfl
  | known _ _ rest => exact rest (List.cons_subset.mp known).2
  | fresh absent _ _ _ _ => exact absurd (List.cons_subset.mp known).1 absent

theorem unique (first : FirstSeen graph seen names left)
    (second : FirstSeen graph seen names right) : left = right := by
  induction first generalizing right with
  | done =>
      cases second
      rfl
  | known member _ induction =>
      cases second with
      | known _ rest => exact induction rest
      | fresh absent _ _ => exact absurd member absent
  | fresh absent _ _ inner outer =>
      cases second with
      | known member _ => exact absurd member absent
      | fresh _ nested rest =>
          rw [← inner nested] at rest
          exact outer rest

end FirstSeen

/-- Whatever was seen and is not open any more has been seen together with all
that it leads to. -/
def Settled (graph : String → List String) (trail seen : List String) : Prop :=
  ∀ name ∈ seen, name ∉ trail → graph name ⊆ seen

namespace Settled

variable {graph : String → List String} {trail seen : List String}
  {name : String}

theorem opened (settled : Settled graph trail seen) (name : String) :
    Settled graph (name :: trail) seen := by
  intro other member closed
  exact settled other member fun standing =>
    closed (List.mem_cons_of_mem _ standing)

theorem concat (settled : Settled graph trail seen) (name : String) :
    Settled graph (name :: trail) (seen ++ [name]) := by
  intro other member closed
  rcases List.mem_append.mp member with member | last
  · exact List.Subset.trans (settled.opened name other member closed)
      (List.subset_append_left ..)
  · rw [List.mem_singleton.mp last] at closed
    exact absurd (List.mem_cons_self ..) closed

theorem closed (settled : Settled graph (name :: trail) seen)
    (complete : graph name ⊆ seen) : Settled graph trail seen := by
  intro other member closed
  by_cases same : other = name
  · rw [same]
    exact complete
  · apply settled other member
    intro standing
    rcases List.mem_cons.mp standing with equal | standing
    · exact same equal
    · exact closed standing

end Settled

/-! ## Readings -/

namespace Catalogue

def requiredBy (catalogue : Catalogue) (name : String) : List String :=
  match catalogue.lookup? name with
  | some package =>
      package.requires .requires ++ package.requires .requiresPrivate
  | none => []

theorem lookup?_of_package? {catalogue : Catalogue} {id : Nat}
    {package : Package} (unique : catalogue.realnames.Nodup)
    (held : catalogue.package? id = some package) :
    catalogue.lookup? package.realname = some package := by
  have listed := mem_packages_iff.mpr ⟨id, held⟩
  cases found : catalogue.find? package.realname with
  | none =>
      exact absurd (List.mem_map_of_mem listed) (find?_eq_none_iff.mp found)
  | some other =>
      rcases package?_of_find? found with ⟨same, present, named⟩
      have equal := eq_of_realname_eq unique
        (mem_packages_iff.mpr ⟨other, present⟩) listed named
      rw [lookup?, found, Option.bind_some, present, equal]

private theorem Extends.requiredBy_eq {before whole : Catalogue} {id : Nat}
    {package : Package} (extended : whole.Extends before)
    (unique : whole.realnames.Nodup)
    (held : before.package? id = some package) :
    whole.requiredBy package.realname =
      package.requires .requires ++ package.requires .requiresPrivate := by
  rcases extended id package held with ⟨marks, kept⟩
  have found := lookup?_of_package? unique kept
  rw [Package.realname_mark] at found
  rw [requiredBy, found]
  rfl

theorem requires_iff {catalogue : Catalogue}
    (unique : catalogue.realnames.Nodup) {name next : String} :
    catalogue.Requires Field.requirements name next ↔
      next ∈ catalogue.requiredBy name := by
  constructor
  · rintro ⟨package, listed, rfl, field, among, required⟩
    rcases mem_packages_iff.mp listed with ⟨id, held⟩
    rw [(Extends.refl catalogue).requiredBy_eq unique held]
    rcases List.mem_pair.mp among with rfl | rfl
    · exact List.mem_append_left _ required
    · exact List.mem_append_right _ required
  · intro required
    cases found : catalogue.lookup? name with
    | none => simp [requiredBy, found] at required
    | some package =>
        rcases Option.bind_eq_some_iff.mp found with ⟨id, among, held⟩
        rcases package?_of_find? among with ⟨same, present, named⟩
        cases held.symm.trans present
        have listed := mem_packages_iff.mpr ⟨id, held⟩
        simp only [requiredBy, found, List.mem_append] at required
        rcases required with required | required
        · exact ⟨package, listed, named, _, Field.requires_mem_requirements,
            required⟩
        · exact ⟨package, listed, named, _,
            Field.requiresPrivate_mem_requirements, required⟩

theorem mem_realnames_of_find? {catalogue : Catalogue} {name : String}
    {id : Nat} (found : catalogue.find? name = some id) :
    name ∈ catalogue.realnames := by
  rcases package?_of_find? found with ⟨package, held, rfl⟩
  exact List.mem_map_of_mem (mem_packages_iff.mpr ⟨id, held⟩)

end Catalogue

namespace Reads

variable {settings : Settings} {opened depth : Nat} {marks : Marks}
  {position final : Position} {tokens trail asked : List String}
  {before after whole : Catalogue}

/-- A package that is not open adds nothing when its requirements are read
again. -/
theorem realnames_of_promoted {id : Nat} {token : String}
    {names : List String} (kept : whole.Extends before)
    (unique : whole.realnames.Nodup)
    (leads : Leads settings asked whole opened depth marks before trail
      (token :: tokens))
    (found : before.find? (Location.realname token) = some id)
    (exposes : before.exposes id marks = true)
    (settled : Settled whole.requiredBy trail before.realnames)
    (walked : FirstSeen whole.requiredBy (before.mergeMarks id marks).realnames
      ((packageTokens false (before.requirements id .requires)).map
        Location.realname) names) : names = before.realnames := by
  have member := Catalogue.mem_realnames_of_find? found
  have closed := leads.standing.not_mem_of_exposes leads.distinct found exposes
  have complete := settled _ member closed
  rcases Catalogue.package?_of_find? found with ⟨package, held, named⟩
  rw [← named, kept.requiredBy_eq unique held, List.append_subset] at complete
  rw [Catalogue.realnames_mergeMarks, Catalogue.requirements_eq held] at walked
  exact walked.eq_of_subset complete.1

private theorem firstSeen_of_lists {package : Package}
    {between names : List String}
    (kept : whole.Extends (before.enrol package marks))
    (unique : whole.realnames.Nodup)
    (first : FirstSeen whole.requiredBy (before.enrol package marks).realnames
      (package.requires .requires) between)
    (second : FirstSeen whole.requiredBy between
      (package.requires .requiresPrivate) names) :
    FirstSeen whole.requiredBy (before.realnames ++ [package.realname])
      (whole.requiredBy package.realname) names := by
  have required := kept.requiredBy_eq unique
    (Catalogue.package?_enrol_size before package marks)
  simp only [Package.realname_mark, Package.requires_mark] at required
  rw [Catalogue.realnames_enrol] at first
  rw [required]
  exact first.append second

/-- A list adds packages in the order of first sight, as long as requirements are
read at every depth. -/
theorem firstSeen
    (readable : ∀ depth, depth ≤ maxFrames →
      Walk.readsRequirements settings depth = true)
    (reads : Reads settings opened depth marks position tokens before final
      after)
    (extended : whole.Extends after) (unique : whole.realnames.Nodup)
    (leads : Leads settings asked whole opened depth marks before trail
      (packageTokens position.pending.isSome tokens))
    (before_settled : Settled whole.requiredBy trail before.realnames) :
    FirstSeen whole.requiredBy before.realnames
        ((packageTokens position.pending.isSome tokens).map Location.realname)
        after.realnames ∧
      Settled whole.requiredBy trail after.realnames := by
  induction reads generalizing trail with
  | done => exact ⟨.done, before_settled⟩
  | version pending _ _ rest =>
      rw [packageTokens_version pending] at leads ⊢
      exact rest extended leads before_settled
  | operator settled operator _ _ rest =>
      rw [packageTokens_operator settled operator] at leads ⊢
      exact rest extended leads before_settled
  | known settled names found _ reads rest =>
      rw [packageTokens_name settled names] at leads
      rw [packageTokens_name settled names, List.map_cons]
      rw [Catalogue.realnames_mergeMarks] at rest
      rcases rest extended (leads.tail.merged _) before_settled with
        ⟨walked, after_settled⟩
      exact ⟨.known (Catalogue.mem_realnames_of_find? found) walked,
        after_settled⟩
  | promoted settled names found exposes readable room publicReads _ reads
      publicList rest =>
      rw [packageTokens_name settled names] at leads
      rw [packageTokens_name settled names, List.map_cons]
      have afterPublic := extended.trans reads.extended
      have kept := (afterPublic.trans publicReads.extended).trans
        (Catalogue.extends_mergeMarks _ _ _)
      rcases leads_of_promoted leads found exposes readable room publicReads
        afterPublic with ⟨nested, remaining⟩
      rcases publicList afterPublic nested
        (by
          rw [Catalogue.realnames_mergeMarks]
          exact before_settled.opened _) with ⟨walked, _⟩
      have same := realnames_of_promoted kept unique leads found exposes
        before_settled walked
      rw [same] at rest
      rcases rest extended remaining before_settled with
        ⟨walked, after_settled⟩
      exact ⟨.known (Catalogue.mem_realnames_of_find? found) walked,
        after_settled⟩
  | skipped _ _ _ _ closed _ _ =>
      have deep := leads.standing.deep
      have room := leads.standing.room
      rw [readable _ (by omega)] at closed
      cases closed
  | loaded settled names absent loads readable room publicReads _ privateReads _
      reads publicList privateList rest =>
      rw [packageTokens_name settled names] at leads
      rw [packageTokens_name settled names, List.map_cons]
      have afterLists := extended.trans reads.extended
      have afterPublic := afterLists.trans privateReads.extended
      have kept := afterPublic.trans publicReads.extended
      rcases leads_of_loaded leads absent loads readable room publicReads
        privateReads afterLists with ⟨inPublic, inPrivate, remaining⟩
      rcases publicList afterPublic inPublic
        (by
          rw [Catalogue.realnames_enrol]
          exact before_settled.concat _) with ⟨first, nested⟩
      rcases privateList afterLists inPrivate nested with ⟨second, nested⟩
      have listed := firstSeen_of_lists kept unique first second
      rcases rest extended remaining (nested.closed listed.mem_of_mem) with
        ⟨walked, after_settled⟩
      have unseen := Catalogue.find?_eq_none_iff.mp absent
      rw [← loads.realname_eq.1] at unseen ⊢
      exact ⟨.fresh unseen listed walked, after_settled⟩

theorem firstSeen_realnames {arguments : List String} {catalogue : Catalogue}
    (readable : ∀ depth, depth ≤ maxFrames →
      Walk.readsRequirements settings depth = true)
    (reads : Reads settings 1 0 .named .start (arguments.flatMap Text.tokens)
      .empty final catalogue) :
    FirstSeen catalogue.requiredBy [] (namesInArguments arguments)
      catalogue.realnames := by
  have walked := reads.firstSeen readable (.refl _)
    (reads.nodup List.nodup_nil) (.start settings arguments)
    (fun _ member => absurd member List.not_mem_nil)
  exact walked.1

end Reads

end PkgConfig
