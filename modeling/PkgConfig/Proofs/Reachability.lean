import PkgConfig.Proofs.Evaluation
import PkgConfig.Proofs.Trail

namespace PkgConfig

/-! Without a limit on the depth, resolution finds what can be reached from the
names of the user, and marks it accordingly. -/

/-- The token is among the arguments, or a package of the catalogue requires
it. -/
def Catalogue.Mentions (catalogue : Catalogue) (arguments : List String)
    (token : String) : Prop :=
  token ∈ packageTokens false (arguments.flatMap Text.tokens) ∨
    ∃ package ∈ catalogue.packages, ∃ field ∈ Field.requirements,
      token ∈ packageTokens false (Text.tokens (package.field field))

/-- A package of this name is what some token that is mentioned leads to, apart
from its marks. -/
def Catalogue.Originates (catalogue : Catalogue) (settings : Settings)
    (arguments : List String) (name : String) : Prop :=
  ∃ package ∈ catalogue.packages, package.realname = name ∧
    ∃ token loaded, catalogue.Mentions arguments token ∧
      Package.Loads settings token loaded ∧
      package = loaded.mark package.marks

namespace Reads

variable {settings : Settings} {opened depth : Nat} {marks : Marks}
  {position final : Position} {tokens arguments asked : List String}
  {before after whole : Catalogue}

private theorem mentions_of_extends {package : Package} {field : Field}
    {id : Nat} {token : String} (extended : whole.Extends before)
    (held : before.package? id = some package)
    (listed : field ∈ Field.requirements)
    (named : token ∈ packageTokens false (Text.tokens (package.field field))) :
    whole.Mentions arguments token := by
  rcases extended id package held with ⟨marks, kept⟩
  exact .inr ⟨_, Catalogue.mem_packages_iff.mpr ⟨id, kept⟩, field, listed,
    named⟩

private theorem originates_of_enrolled {catalogue : Catalogue}
    {package : Package}
    {token : String} (extended : whole.Extends (catalogue.enrol package marks))
    (mentioned : whole.Mentions arguments token)
    (loads : Package.Loads settings token package) :
    whole.Originates settings arguments package.realname := by
  have held := Catalogue.package?_enrol_size catalogue package marks
  rcases extended _ _ held with ⟨more, kept⟩
  refine ⟨_, Catalogue.mem_packages_iff.mpr ⟨_, kept⟩, rfl, token, package,
    mentioned, loads, ?_⟩
  rw [Package.mark_mark]
  simp [Package.mark, loads.realname_eq.2, Marks.union, Marks.none]

/-- What is known of the tokens in a list, if it gives a property to the names
that gain something and goes over to the lists that the tokens open. -/
structure Spreads (settings : Settings) (whole : Catalogue)
    (gained : Marks → Bool) (property : String → Prop)
    (known : Marks → String → Prop) : Prop where
  merged {marks earlier : Marks} {token : String}
    (listed : known marks token)
    (shows : gained (earlier.union marks) = true) :
    gained earlier = true ∨ property (Location.realname token)
  enrolled {catalogue : Catalogue} {marks : Marks} {token : String}
    {package : Package} (listed : known marks token)
    (loads : Package.Loads settings token package)
    (extended : whole.Extends (catalogue.enrol package marks))
    (shows : gained (package.marks.union marks) = true) :
    property package.realname
  toPublic {catalogue : Catalogue} {marks : Marks} {token next : String}
    {id : Nat} {package : Package} (listed : known marks token)
    (extended : whole.Extends catalogue)
    (held : catalogue.package? id = some package)
    (same : package.realname = Location.realname token)
    (named : next ∈
      packageTokens false (Text.tokens (package.field .requires))) :
    known marks.indirect next
  toPrivate {catalogue : Catalogue} {marks : Marks} {token next : String}
    {id : Nat} {package : Package} (listed : known marks token)
    (extended : whole.Extends catalogue)
    (held : catalogue.package? id = some package)
    (named : next ∈
      packageTokens false (Text.tokens (package.field .requiresPrivate))) :
    known .none next

theorem Spreads.gains {gained : Marks → Bool} {property : String → Prop}
    {known : Marks → String → Prop}
    (spreads : Spreads settings whole gained property known)
    (reads : Reads settings opened depth marks position tokens before final
      after)
    (extended : whole.Extends after)
    (listed : ∀ token ∈ packageTokens position.pending.isSome tokens,
      known marks token) :
    Catalogue.Gains gained property before after := by
  induction reads with
  | done => exact .refl _
  | version pending _ _ rest =>
      rw [packageTokens_version pending] at listed
      exact rest extended listed
  | operator settled operator _ _ rest =>
      rw [packageTokens_operator settled operator] at listed
      exact rest extended listed
  | known settled names found _ reads rest =>
      rw [packageTokens_name settled names] at listed
      rcases List.forall_mem_cons.mp listed with ⟨first, listed⟩
      rcases Catalogue.package?_of_find? found with ⟨package, held, same⟩
      refine (Catalogue.gains_mergeMarks held fun shows => ?_).trans
        (rest extended listed) reads.extended
      rw [same]
      exact spreads.merged first shows
  | promoted settled names found _ _ _ publicReads _ reads publicList rest =>
      rw [packageTokens_name settled names] at listed
      rcases List.forall_mem_cons.mp listed with ⟨first, listed⟩
      rcases Catalogue.package?_of_find? found with ⟨package, held, same⟩
      have afterPublic := extended.trans reads.extended
      have kept := (afterPublic.trans publicReads.extended).trans
        (Catalogue.extends_mergeMarks _ _ _)
      rw [Catalogue.requirements_eq held] at publicList
      have nested := publicList afterPublic fun _ named =>
        spreads.toPublic first kept held same named
      refine ((Catalogue.gains_mergeMarks held fun shows => ?_).trans nested
        publicReads.extended).trans (rest extended listed) reads.extended
      rw [same]
      exact spreads.merged first shows
  | skipped settled names _ loads _ reads rest =>
      rw [packageTokens_name settled names] at listed
      rcases List.forall_mem_cons.mp listed with ⟨first, listed⟩
      have enrolled := extended.trans reads.extended
      exact (Catalogue.gains_enrol _ fun shows =>
        spreads.enrolled first loads enrolled shows).trans
        (rest extended listed) reads.extended
  | loaded settled names _ loads _ _ publicReads _ privateReads _ reads
      publicList privateList rest =>
      rw [packageTokens_name settled names] at listed
      rcases List.forall_mem_cons.mp listed with ⟨first, listed⟩
      have afterLists := extended.trans reads.extended
      have afterPublic := afterLists.trans privateReads.extended
      have enrolled := afterPublic.trans publicReads.extended
      have inPublic := publicList afterPublic fun _ named =>
        spreads.toPublic first enrolled (Catalogue.package?_enrol_size _ _ _)
          loads.realname_eq.1 named
      have inPrivate := privateList afterLists fun _ named =>
        spreads.toPrivate first enrolled (Catalogue.package?_enrol_size _ _ _)
          named
      exact (((Catalogue.gains_enrol _ fun shows =>
        spreads.enrolled first loads enrolled shows).trans inPublic
        publicReads.extended).trans inPrivate privateReads.extended).trans
        (rest extended listed) reads.extended

private theorem spreads_mentions :
    Spreads settings whole (fun _ => true) (whole.Originates settings arguments)
      (fun _ token => whole.Mentions arguments token) where
  merged := fun _ _ => .inl rfl
  enrolled := fun mentioned loads extended _ =>
    originates_of_enrolled extended mentioned loads
  toPublic := fun _ extended held _ named =>
    mentions_of_extends extended held Field.requires_mem_requirements named
  toPrivate := fun _ extended held named =>
    mentions_of_extends extended held Field.requiresPrivate_mem_requirements
      named

/-- A mark comes with a property of the name if the names in the list have it, and
if it passes along public requirements as far as the mark does. -/
theorem spreads_marks {gained : Marks → Bool} {property : String → Prop}
    (union : ∀ left right, gained (left.union right) = true →
      gained left = true ∨ gained right = true)
    (unmarked : gained .none = false)
    (passes : ∀ marks, gained marks.indirect = true → gained marks = true ∧
      ∀ name next, property name → whole.Requires Field.interface name next →
        property next) :
    Spreads settings whole gained property (fun marks token =>
      gained marks = true → property (Location.realname token)) where
  merged := fun listed shows => (union _ _ shows).imp_right listed
  enrolled := by
    intro catalogue marks token package listed loads _ shows
    rcases loads.realname_eq with ⟨same, plain⟩
    rw [plain] at shows
    rw [same]
    exact listed ((union _ _ shows).resolve_left (by simp [unmarked]))
  toPublic := by
    intro catalogue marks token next id package listed extended held same named
      shows
    rcases passes _ shows with ⟨shows, passes⟩
    have first := listed shows
    rw [← same] at first
    exact passes _ _ first (requires_of_named extended held
      Field.requires_mem_interface named)
  toPrivate := by
    -- Private lists pass no marks on.
    intro _ _ _ _ _ _ _ _ _ _ shows
    exact absurd (shows.symm.trans unmarked) (by decide)

private theorem exposed_of_required {catalogue : Catalogue} {package : Package}
    {id : Nat} (enclosing : whole.Extends catalogue)
    (unique : whole.realnames.Nodup)
    (held : catalogue.package? id = some package)
    (exposing : marks.exposed = true)
    (reads : Reads settings opened depth marks.indirect .start
      (Text.tokens (package.field .requires)) before final after)
    (extended : whole.Extends after) {next : String}
    (requires : whole.Requires Field.interface package.realname next) :
    whole.Holds next ⟨false, true⟩ := by
  rcases enclosing.of_requires unique held requires with
    ⟨field, listed, required⟩
  rw [List.mem_singleton.mp listed] at required
  have holds := (holds_of_required reads required).later extended
  exact holds.weaken (by simp [Marks.includes, Marks.indirect, exposing])

/-- Whatever is newly exposed exposes its own interface too, as long as
requirements are read at every depth. -/
theorem interface_exposed
    (readable : ∀ depth, depth ≤ maxFrames →
      Walk.readsRequirements settings depth = true)
    (reads : Reads settings opened depth marks position tokens before final
      after)
    (deep : depth < opened) (room : opened ≤ maxFrames)
    (extended : whole.Extends after) (unique : whole.realnames.Nodup) :
    Catalogue.Gains Marks.exposed
      (fun name => ∀ next, whole.Requires Field.interface name next →
        whole.Holds next ⟨false, true⟩) before after := by
  induction reads with
  | done => exact .refl _
  | version _ _ _ rest => exact rest deep room extended
  | operator _ _ _ _ rest => exact rest deep room extended
  | known _ _ found quiet reads rest =>
      rcases Catalogue.package?_of_find? found with ⟨package, held, same⟩
      refine (Catalogue.gains_mergeMarks held fun shows => .inl ?_).trans
        (rest deep room extended) reads.extended
      rw [readable _ (by omega), Bool.and_true, Catalogue.exposes,
        Catalogue.marksOf, held] at quiet
      simp only [Marks.union, Bool.or_eq_true, Bool.and_eq_false_iff,
        Bool.not_eq_false'] at shows quiet
      rcases shows with shown | shows
      · exact shown
      · exact quiet.resolve_left (by simp [shows])
  | promoted _ _ found exposes _ within publicReads _ reads publicList rest =>
      rcases Catalogue.package?_of_find? found with ⟨package, held, same⟩
      have afterPublic := extended.trans reads.extended
      have merged := (afterPublic.trans publicReads.extended).trans
        (Catalogue.extends_mergeMarks _ _ _)
      have exposing := (Bool.and_eq_true_iff.mp exposes).1
      rw [Catalogue.requirements_eq held] at publicReads
      refine ((Catalogue.gains_mergeMarks held fun _ => .inr ?_).trans
        (publicList (by omega) within afterPublic) publicReads.extended).trans
        (rest deep room extended) reads.extended
      intro next requires
      exact exposed_of_required merged unique held exposing publicReads
        afterPublic requires
  | skipped _ _ _ _ closed _ _ =>
      rw [readable _ (by omega)] at closed
      cases closed
  | loaded _ _ _ loads _ within publicReads _ privateReads _ reads
      publicList privateList rest =>
      have afterLists := extended.trans reads.extended
      have afterPublic := afterLists.trans privateReads.extended
      have enrolled := afterPublic.trans publicReads.extended
      refine (((Catalogue.gains_enrol _ fun shows => ?_).trans
        (publicList (by omega) within afterPublic) publicReads.extended).trans
        (privateList (by omega) (by omega) afterLists)
        privateReads.extended).trans (rest deep room extended) reads.extended
      intro next requires
      have exposing := (Bool.or_eq_true_iff.mp shows).resolve_left
        (by simp [loads.realname_eq.2, Marks.none])
      exact exposed_of_required enrolled unique
        (Catalogue.package?_enrol_size _ _ _) exposing publicReads afterPublic
        requires

/-! ## Command lines -/

section Complete

variable {arguments : List String} {final : Position} {catalogue : Catalogue}
  (reads : Reads settings 1 0 .named .start (arguments.flatMap Text.tokens)
    .empty final catalogue)

include reads

theorem holds_of_asked {name : String}
    (member : name ∈ namesInArguments arguments) :
    catalogue.Holds name .named := by
  rcases List.mem_map.mp member with ⟨token, listed, rfl⟩
  exact reads.holds listed

theorem discovered_of_mem {name : String}
    (member : name ∈ catalogue.realnames) :
    ∃ trail, Discovered settings (namesInArguments arguments) catalogue name
      trail := by
  rcases List.mem_map.mp member with ⟨package, listed, rfl⟩
  have discovered := reads.discovered (.refl _) (reads.nodup List.nodup_nil)
    (.start settings arguments)
  exact discovered.of_empty listed rfl

theorem mem_realnames_iff
    (readable : ∀ depth, depth ≤ maxFrames →
      Walk.readsRequirements settings depth = true) (name : String) :
    name ∈ catalogue.realnames ↔
      Reaches (catalogue.Requires Field.requirements)
        (namesInArguments arguments) name := by
  constructor
  · intro member
    rcases reads.discovered_of_mem member with ⟨trail, found⟩
    exact ⟨trail, found.chain⟩
  · apply Reaches.closed
    · intro name member
      exact Catalogue.holds_none_iff.mp
        ((reads.holds_of_asked member).weaken (Marks.includes_none _))
    · intro name next member requires
      rcases reads.discovered_of_mem member with ⟨trail, found⟩
      exact found.complete (readable _ found.bounded) next requires

theorem exposed_iff
    (readable : ∀ depth, depth ≤ maxFrames →
      Walk.readsRequirements settings depth = true) {package : Package}
    (listed : package ∈ catalogue.packages) :
    package.marks.exposed = true ↔
      Reaches (catalogue.Requires Field.interface)
        (namesInArguments arguments) package.realname := by
  have unique := reads.nodup List.nodup_nil
  constructor
  · intro exposed
    have gains : Catalogue.Gains Marks.exposed
        (Reaches (catalogue.Requires Field.interface)
          (namesInArguments arguments)) .empty catalogue := by
      refine (spreads_marks ?_ rfl ?_).gains reads (.refl _) ?_
      · intro left right shows
        exact Bool.or_eq_true_iff.mp shows
      · intro marks shows
        exact ⟨shows, fun name next reached edge => reached.required edge⟩
      · intro token named _
        exact .of_asked (List.mem_map_of_mem named)
    exact gains.of_empty listed exposed
  · intro reached
    have exposed : ∀ name, Reaches (catalogue.Requires Field.interface)
        (namesInArguments arguments) name →
        catalogue.Holds name ⟨false, true⟩ := by
      intro name
      apply Reaches.closed
      · intro name member
        exact (reads.holds_of_asked member).weaken rfl
      · intro name next holds requires
        rcases holds with ⟨other, listed, rfl, marked⟩
        have closed := reads.interface_exposed readable (by decide) (by decide)
          (.refl _) unique
        exact closed.of_empty listed (by simpa [Marks.includes] using marked)
          next requires
    rcases exposed _ reached with ⟨other, member, same, marked⟩
    rw [Catalogue.eq_of_realname_eq unique member listed same] at marked
    simpa [Marks.includes] using marked

private theorem direct_iff {package : Package}
    (listed : package ∈ catalogue.packages) :
    package.marks.direct = true ↔
      package.realname ∈ namesInArguments arguments := by
  have unique := reads.nodup List.nodup_nil
  constructor
  · intro direct
    have gains : Catalogue.Gains Marks.direct
        (· ∈ namesInArguments arguments) .empty catalogue := by
      refine (spreads_marks ?_ rfl ?_).gains reads (.refl _) ?_
      · intro left right shows
        exact Bool.or_eq_true_iff.mp shows
      · intro marks shows
        cases shows
      · intro token named _
        exact List.mem_map_of_mem named
    exact gains.of_empty listed direct
  · intro member
    rcases reads.holds_of_asked member with ⟨other, held, same, marked⟩
    rw [Catalogue.eq_of_realname_eq unique held listed same] at marked
    exact (Bool.and_eq_true_iff.mp marked).1

theorem origin {package : Package} (listed : package ∈ catalogue.packages) :
    ∃ token loaded, catalogue.Mentions arguments token ∧
      Package.Loads settings token loaded ∧
      package = loaded.mark package.marks := by
  have unique := reads.nodup List.nodup_nil
  have gains := spreads_mentions.gains reads (.refl _) fun _ named => .inl named
  rcases gains.of_empty listed rfl with
    ⟨other, held, same, token, loaded, mentioned, loads, marked⟩
  rw [Catalogue.eq_of_realname_eq unique held listed same] at marked
  exact ⟨token, loaded, mentioned, loads, marked⟩

end Complete

end Reads

/-- What a command line resolves to. Every name that can be reached has one
package, which comes from a token that is mentioned; it is exposed if public
requirements lead to it, and direct if the user named it. -/
theorem resolve_reachable {settings : Settings} {arguments : List String}
    {catalogue : Catalogue} {before after : Ledger}
    (recursive : settings.isOn .skipRequires = false)
    (unlimited : maxFrames < settings.maxTraversalDepth)
    (resolved : Catalogue.resolve settings arguments before =
      .ok catalogue after) :
    catalogue.realnames.Nodup ∧
      (∀ name, name ∈ catalogue.realnames ↔
        Reaches (catalogue.Requires Field.requirements)
          (namesInArguments arguments) name) ∧
      ∀ package ∈ catalogue.packages,
        (∃ token loaded, catalogue.Mentions arguments token ∧
          Package.Loads settings token loaded ∧
          package = loaded.mark package.marks) ∧
        (package.marks.exposed = true ↔
          Reaches (catalogue.Requires Field.interface)
            (namesInArguments arguments) package.realname) ∧
        (package.marks.direct = true ↔
          package.realname ∈ namesInArguments arguments) := by
  rcases reads_of_resolve resolved with ⟨final, reads⟩
  have readable := Walk.readsRequirements_of_unlimited recursive unlimited
  refine ⟨reads.nodup List.nodup_nil, reads.mem_realnames_iff readable, ?_⟩
  intro package listed
  exact ⟨reads.origin listed, reads.exposed_iff readable listed,
    reads.direct_iff listed⟩

/-- A cycle, in which `b` is met privately before the user names it. -/
def promotionSettings : Settings :=
  FileTable.settings .none
    [FileTable.metadataFile "a" "Requires.private: b\n",
      FileTable.metadataFile "b" "Requires: c\n",
      FileTable.metadataFile "c" "Requires: a\n"]

/-- The name that was met privately exposes what it requires after all. -/
theorem resolve_reachable_promoted :
    promotionSettings.isOn .skipRequires = false ∧
      maxFrames < promotionSettings.maxTraversalDepth ∧
      ∃ catalogue after,
        Catalogue.resolve promotionSettings ["a b"]
          promotionSettings.freshLedger = .ok catalogue after ∧
        catalogue.packages.map (fun package =>
          (package.realname, package.marks)) =
            [("a", .named), ("b", .named), ("c", ⟨false, true⟩)] ∧
        ∀ package ∈ catalogue.packages,
          Reaches (catalogue.Requires Field.interface)
            (namesInArguments ["a b"]) package.realname := by
  have recursive : promotionSettings.isOn .skipRequires = false := by decide
  have unlimited : maxFrames < promotionSettings.maxTraversalDepth := by decide
  have computed : (RecursiveWalk.resolve? promotionSettings "a b").map
      (fun catalogue => catalogue.packages.map fun package =>
        (package.realname, package.marks)) =
          some [("a", .named), ("b", .named), ("c", ⟨false, true⟩)] := by
    cbv
  rcases Catalogue.resolve_of_resolve? computed with
    ⟨catalogue, after, resolved, shown⟩
  refine ⟨recursive, unlimited, catalogue, after, resolved, shown, ?_⟩
  intro package member
  have described := (resolve_reachable recursive unlimited resolved).2.2 package
    member
  apply described.2.1.mp
  have listed := List.mem_map_of_mem (f := fun package : Package =>
    (package.realname, package.marks)) member
  rw [shown] at listed
  simp only [List.mem_cons, Prod.mk.injEq, List.not_mem_nil, or_false] at listed
  rcases listed with ⟨_, marks⟩ | ⟨_, marks⟩ | ⟨_, marks⟩ <;> rw [marks] <;> rfl

end PkgConfig
