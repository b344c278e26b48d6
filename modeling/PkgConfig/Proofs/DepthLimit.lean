import PkgConfig.Proofs.Reachability

namespace PkgConfig

/-! Under a limit on the depth, a package has its requirements read where it is
met first. Nothing beyond the limit is found, but a long way to a package can
hide what a short way would have led to. -/

def Catalogue.Follows (catalogue : Catalogue)
    (graph : String → String → Prop) : Prop :=
  ∀ package ∈ catalogue.packages, ∀ next, graph package.realname next ↔
    ∃ field ∈ Field.requirements, next ∈ package.requires field

namespace Catalogue

variable {catalogue : Catalogue} {graph : String → String → Prop}
  {asked names : List String}

private theorem follows_of_outline
    (outlined : ∀ entry ∈ catalogue.outline, ∀ next,
      graph entry.1 next ↔ next ∈ entry.2) : catalogue.Follows graph := by
  intro package listed next
  rw [← List.mem_flatMap]
  exact outlined _ (List.mem_map_of_mem listed) next

theorem Follows.edge (follows : catalogue.Follows graph) {name next : String}
    (requires : catalogue.Requires Field.requirements name next) :
    graph name next := by
  rcases requires with ⟨package, listed, rfl, required⟩
  exact (follows package listed next).mpr required

theorem Follows.requires (follows : catalogue.Follows graph)
    {name next : String} (member : name ∈ catalogue.realnames)
    (edge : graph name next) :
    catalogue.Requires Field.requirements name next := by
  rcases List.mem_map.mp member with ⟨package, listed, rfl⟩
  exact ⟨package, listed, rfl, (follows package listed next).mp edge⟩

theorem Follows.chain (follows : catalogue.Follows graph)
    (chain : Chain (catalogue.Requires Field.requirements) asked names) :
    Chain graph asked names := by
  induction chain with
  | asked member => exact .asked member
  | required _ requires induction =>
      exact induction.required (follows.edge requires)

end Catalogue

namespace Reads

variable {settings : Settings} {arguments : List String} {final : Position}
  {catalogue : Catalogue} {graph : String → String → Prop}

private theorem length_le_of_discovered {asked trail : List String}
    {name : String} (found : Discovered settings asked catalogue name trail)
    (positive : 1 ≤ settings.maxTraversalDepth) :
    (name :: trail).length ≤ settings.maxTraversalDepth := by
  cases trail with
  | nil => exact positive
  | cons parent trail =>
      have readable := found.reads (List.cons_ne_nil _ _)
      exact of_decide_eq_true (Bool.and_eq_true_iff.mp readable).2

private theorem chain_within_limit
    (reads : Reads settings 1 0 .named .start (arguments.flatMap Text.tokens)
      .empty final catalogue)
    (follows : catalogue.Follows graph)
    (positive : 1 ≤ settings.maxTraversalDepth) {name : String}
    (member : name ∈ catalogue.realnames) :
    ∃ names, Chain graph (namesInArguments arguments) (name :: names) ∧
      (name :: names).length ≤ settings.maxTraversalDepth := by
  rcases reads.discovered_of_mem member with ⟨trail, found⟩
  exact ⟨trail, follows.chain found.chain,
    length_le_of_discovered found positive⟩

/-- A chain is followed to its end if no package on the way can be met right at
the limit, where its requirements are not read. -/
theorem mem_of_chain
    (reads : Reads settings 1 0 .named .start (arguments.flatMap Text.tokens)
      .empty final catalogue)
    (follows : catalogue.Follows graph)
    (recursive : settings.isOn .skipRequires = false)
    (positive : 1 ≤ settings.maxTraversalDepth) {names : List String}
    (chain : Chain graph (namesInArguments arguments) names)
    (shallow : ∀ earlier ∈ names.tail, ∀ trail,
      Chain graph (namesInArguments arguments) (earlier :: trail) →
      (earlier :: trail).Nodup →
      (earlier :: trail).length ≠ settings.maxTraversalDepth) :
    ∀ name ∈ names.head?, name ∈ catalogue.realnames := by
  induction chain with
  | asked member =>
      intro name first
      cases first
      exact Catalogue.holds_none_iff.mp
        ((reads.holds_of_asked member).weaken (Marks.includes_none _))
  | @required name names next _ edge induction =>
      intro last first
      cases first
      have known : name ∈ catalogue.realnames := by
        apply induction (fun earlier member =>
          shallow earlier (List.mem_cons_of_mem _ member))
        rfl
      rcases reads.discovered_of_mem known with ⟨trail, found⟩
      have within := Nat.lt_of_le_of_ne (length_le_of_discovered found positive)
        (shallow name (List.mem_cons_self ..) trail
          (follows.chain found.chain) found.distinct)
      apply found.complete
      · rw [Walk.readsRequirements, recursive, Bool.not_false, Bool.true_and,
          decide_eq_true_iff]
        exact within
      · exact follows.requires known edge

end Reads

/-- The packages that are resolved under a limit on the depth. Each is at the end
of a chain that the limit allows; and each is resolved that some chain leads to
whose earlier packages have no way to them, without repetition, of just the length
of the limit. -/
theorem resolve_within_limit {settings : Settings} {arguments : List String}
    {catalogue : Catalogue} {graph : String → String → Prop}
    {before after : Ledger}
    (recursive : settings.isOn .skipRequires = false)
    (positive : 1 ≤ settings.maxTraversalDepth)
    (resolved : Catalogue.resolve settings arguments before =
      .ok catalogue after)
    (follows : catalogue.Follows graph) :
    (∀ name ∈ catalogue.realnames, ∃ names,
      Chain graph (namesInArguments arguments) (name :: names) ∧
        (name :: names).length ≤ settings.maxTraversalDepth) ∧
      ∀ name names,
        Chain graph (namesInArguments arguments) (name :: names) →
        (∀ earlier ∈ names, ∀ trail,
          Chain graph (namesInArguments arguments) (earlier :: trail) →
          (earlier :: trail).Nodup →
          (earlier :: trail).length ≠ settings.maxTraversalDepth) →
        name ∈ catalogue.realnames := by
  rcases reads_of_resolve resolved with ⟨final, reads⟩
  constructor
  · intro name member
    exact reads.chain_within_limit follows positive member
  · intro name names chain shallow
    exact reads.mem_of_chain follows recursive positive chain shallow name rfl

/-! ## A detour

The limit of three packages allows the way from `a` over `c` to `d`, and not the
one that takes the detour over `b`. -/

namespace Detour

def settings (entries : String) : Settings :=
  FileTable.settings { Choices.none with maxTraversalDepth := some 3 }
    [FileTable.metadataFile "a" ("Requires: " ++ entries ++ "\n"),
      FileTable.metadataFile "b" "Requires: c\n",
      FileTable.metadataFile "c" "Requires: d\n",
      FileTable.metadataFile "d" ""]

def graph : String → List String
  | "a" => ["b", "c"]
  | "b" => ["c"]
  | "c" => ["d"]
  | _ => []

private theorem resolve_detour_first :
    ∃ catalogue after,
      Catalogue.resolve (settings "b c") ["a"] (settings "b c").freshLedger =
        .ok catalogue after ∧
      catalogue.outline = [("a", ["b", "c"]), ("b", ["c"]), ("c", ["d"])] := by
  apply Catalogue.resolve_of_resolve?
  cbv

private theorem resolve_detour_last :
    ∃ catalogue after,
      Catalogue.resolve (settings "c b") ["a"] (settings "c b").freshLedger =
        .ok catalogue after ∧
      catalogue.realnames = ["a", "c", "d", "b"] := by
  apply Catalogue.resolve_of_resolve?
  cbv

private theorem chain_graph {name : String} {names : List String}
    (chain : Chain (fun name next => next ∈ graph name) ["a"] (name :: names)) :
    (name = "a" → names = []) ∧ (name = "b" → names = ["a"]) := by
  generalize listed : name :: names = list at chain
  induction chain generalizing name names with
  | asked member =>
      cases listed
      rw [List.mem_singleton.mp member]
      simp
  | required _ edge induction =>
      cases listed
      have earlier := (induction rfl).1
      unfold graph at edge
      split at edge
      · rcases List.mem_pair.mp edge with rfl | rfl
        · simp [earlier rfl]
        · simp
      · rw [List.mem_singleton.mp edge]
        simp
      · rw [List.mem_singleton.mp edge]
        simp
      · cases edge

theorem resolve_within_limit_detour :
    1 ≤ (settings "b c").maxTraversalDepth ∧
      ∃ catalogue after,
        Catalogue.resolve (settings "b c") ["a"] (settings "b c").freshLedger =
          .ok catalogue after ∧
        catalogue.Follows (fun name next => next ∈ graph name) ∧
        (∀ name ∈ catalogue.realnames, ∃ names,
          Chain (fun name next => next ∈ graph name) ["a"] (name :: names) ∧
            (name :: names).length ≤ 3) ∧
        "c" ∈ catalogue.realnames := by
  have recursive : (settings "b c").isOn .skipRequires = false := by decide
  have positive : 1 ≤ (settings "b c").maxTraversalDepth := by decide
  rcases resolve_detour_first with ⟨catalogue, after, resolved, outlined⟩
  have follows : catalogue.Follows (fun name next => next ∈ graph name) := by
    apply Catalogue.follows_of_outline
    rw [outlined]
    simp [graph]
  have limited := resolve_within_limit recursive positive resolved follows
  refine ⟨positive, catalogue, after, resolved, follows, limited.1, ?_⟩
  have chain : Chain (fun name next => next ∈ graph name) ["a"]
      ["c", "b", "a"] :=
    .required (.required (.asked (by decide)) (by decide)) (by decide)
  apply limited.2 "c" ["b", "a"] chain
  intro earlier member trail chain _
  have short := chain_graph chain
  rcases List.mem_pair.mp member with rfl | rfl
  · rw [short.2 rfl]
    decide
  · rw [short.1 rfl]
    decide

/-- Only the order of the entries decides whether `d` is found. -/
theorem resolve_misses_short_chain :
    (settings "b c").isOn .skipRequires = false ∧
      (settings "b c").maxTraversalDepth = 3 ∧
      (∃ catalogue after,
        Catalogue.resolve (settings "b c") ["a"] (settings "b c").freshLedger =
          .ok catalogue after ∧
        Chain (catalogue.Requires Field.requirements) (namesInArguments ["a"])
          ["d", "c", "a"] ∧
        "d" ∉ catalogue.realnames) ∧
      ∃ catalogue after,
        Catalogue.resolve (settings "c b") ["a"] (settings "c b").freshLedger =
          .ok catalogue after ∧
        "d" ∈ catalogue.realnames := by
  refine ⟨by decide, by decide, ?_, ?_⟩
  · rcases resolve_detour_first with ⟨catalogue, after, resolved, outlined⟩
    have edge : ∀ name required next,
        (name, required) ∈ [("a", ["b", "c"]), ("b", ["c"]), ("c", ["d"])] →
        next ∈ required → catalogue.Requires Field.requirements name next := by
      intro name required next listed member
      rw [← outlined] at listed
      exact Catalogue.requires_iff_outline.mpr ⟨required, listed, member⟩
    refine ⟨catalogue, after, resolved, ?_, ?_⟩
    · have start : Chain (catalogue.Requires Field.requirements)
          (namesInArguments ["a"]) ["a"] := .asked (by decide)
      exact (start.required (edge "a" ["b", "c"] "c" (by decide)
        (by decide))).required (edge "c" ["d"] "d" (by decide) (by decide))
    · rw [Catalogue.realnames_eq_outline, outlined]
      decide
  · rcases resolve_detour_last with ⟨catalogue, after, resolved, names⟩
    refine ⟨catalogue, after, resolved, ?_⟩
    rw [names]
    decide

end Detour

end PkgConfig
