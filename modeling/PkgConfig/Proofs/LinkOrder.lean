import PkgConfig.Proofs.Emission
import PkgConfig.Proofs.Evaluation
import PkgConfig.Proofs.FirstSeen
import PkgConfig.Proofs.Reachability

namespace PkgConfig

/-! The order of libraries for a static linker, when each package is one library.
It is the order of first sight, and the linker gets along with it exactly if no
package is seen before one that requires it. -/

def libraryFlag (name : String) : String := "-l" ++ name

private theorem libraryFlag_injective : Function.Injective libraryFlag := by
  intro left right same
  have lists := congrArg String.toList same
  simp only [libraryFlag, String.toList_append, List.append_cancel_left_eq]
    at lists
  exact String.toList_inj.mp lists

private theorem hasFlag_libraryFlag (name : String) :
    Argument.hasFlag (libraryFlag name) 'L' = false := by
  have shape : (libraryFlag name).toList = '-' :: 'l' :: name.toList := by
    rw [libraryFlag, String.toList_append]
    rfl
  simp [Argument.hasFlag, shape]

namespace Catalogue

/-- Each package links the library of its own name, and nothing in private. -/
def LinksItself (catalogue : Catalogue) : Prop :=
  ∀ package ∈ catalogue.packages,
    package.words .libs = [libraryFlag package.realname] ∧
      package.words .libsPrivate = []

instance (catalogue : Catalogue) : Decidable catalogue.LinksItself :=
  inferInstanceAs (Decidable (∀ package ∈ catalogue.packages, _))

private theorem LinksItself.arguments_eq {settings : Settings}
    {catalogue : Catalogue} (linksItself : catalogue.LinksItself)
    (static : settings.isOn .linkStatic = true) :
    catalogue.packages.flatMap (FlagClass.libs.arguments settings .any) =
      catalogue.realnames.map libraryFlag := by
  rw [realnames, List.map_map, ← List.flatMap_pure_eq_map]
  apply List.flatMap_congr
  intro package listed
  rcases linksItself package listed with ⟨own, none⟩
  simp [FlagClass.arguments, FlagClass.fields, static, own, none,
    Filter.accepts]

theorem LinksItself.survivors_eq {settings : Settings} {catalogue : Catalogue}
    {list : ArgumentList} {before after : Ledger}
    (linksItself : catalogue.LinksItself)
    (static : settings.isOn .linkStatic = true)
    (unique : catalogue.realnames.Nodup)
    (collected : FlagClass.libs.collect settings catalogue .any before =
      .ok list after) :
    list.survivors = catalogue.realnames.map libraryFlag := by
  rw [(FlagClass.collect_eq_ok collected).list_eq,
    linksItself.arguments_eq static]
  apply FlagClass.survivors_foldl_push_seed
  · exact unique.map libraryFlag_injective
  · intro argument member
    rcases List.mem_map.mp member with ⟨name, _, rfl⟩
    exact hasFlag_libraryFlag name

end Catalogue

private theorem libraryFlag_sublist_iff (names : List String)
    (name next : String) :
    [libraryFlag name, libraryFlag next].Sublist (names.map libraryFlag) ↔
      [name, next].Sublist names := by
  constructor
  · intro within
    rcases List.sublist_map_iff.mp within with ⟨pair, within, same⟩
    have equal : [name, next] = pair :=
      List.map_injective_iff.mpr libraryFlag_injective same
    rw [equal]
    exact within
  · intro within
    exact within.map libraryFlag

/-- What a static linker is given when each package is one library. Each library
comes in front of those that it requires exactly if every package stands in the
catalogue before those that it requires; and if all requirements are read, the
catalogue has its packages in the order of first sight. -/
theorem static_libraries_ordered_iff {settings : Settings}
    {arguments : List String} {catalogue : Catalogue} {list : ArgumentList}
    {before between after finish : Ledger}
    (static : settings.isOn .linkStatic = true)
    (resolved : Catalogue.resolve settings arguments before =
      .ok catalogue between)
    (linksItself : catalogue.LinksItself)
    (collected : FlagClass.libs.collect settings catalogue .any after =
      .ok list finish) :
    list.survivors = catalogue.realnames.map libraryFlag ∧
      ((∀ name next, catalogue.Requires Field.requirements name next →
          [libraryFlag name, libraryFlag next].Sublist list.survivors) ↔
        ∀ name next, next ∈ catalogue.requiredBy name →
          [name, next].Sublist catalogue.realnames) ∧
      (settings.isOn .skipRequires = false →
        maxFrames < settings.maxTraversalDepth →
        FirstSeen catalogue.requiredBy [] (namesInArguments arguments)
          catalogue.realnames) := by
  rcases reads_of_resolve resolved with ⟨final, reads⟩
  have unique := reads.nodup List.nodup_nil
  have survivors := linksItself.survivors_eq static unique collected
  refine ⟨survivors, ?_, ?_⟩
  · simp only [survivors, libraryFlag_sublist_iff,
      Catalogue.requires_iff unique]
  · intro recursive unlimited
    apply reads.firstSeen_realnames
    exact Walk.readsRequirements_of_unlimited recursive unlimited

/-! ## Two libraries -/

namespace TwoLibraries

def settings : Settings :=
  FileTable.settings
    { Choices.none with switches := Switches.none.set .linkStatic true }
    [FileTable.metadataFile "b" "Requires: c\nLibs: -lb\n",
      FileTable.metadataFile "c" "Libs: -lc\n"]

def collects (catalogue : Catalogue) : Bool :=
  match FlagClass.libs.collect settings catalogue .any settings.freshLedger with
  | .ok .. => true
  | .error .. => false

theorem collect_of_collects {catalogue : Catalogue}
    (collects : collects catalogue = true) :
    ∃ list finish, FlagClass.libs.collect settings catalogue .any
      settings.freshLedger = .ok list finish := by
  unfold TwoLibraries.collects at collects
  split at collects
  next list finish collected => exact ⟨list, finish, collected⟩
  · cases collects

private theorem resolve_needed_last :
    ∃ catalogue after,
      Catalogue.resolve settings ["b c"] settings.freshLedger =
        .ok catalogue after ∧
      (catalogue.outline, decide catalogue.LinksItself, collects catalogue) =
        ([("b", ["c"]), ("c", [])], true, true) := by
  apply Catalogue.resolve_of_resolve?
  cbv

private theorem resolve_needed_first :
    ∃ catalogue after,
      Catalogue.resolve settings ["c b"] settings.freshLedger =
        .ok catalogue after ∧
      (catalogue.outline, decide catalogue.LinksItself, collects catalogue) =
        ([("c", []), ("b", ["c"])], true, true) := by
  apply Catalogue.resolve_of_resolve?
  cbv

theorem requires_iff {catalogue : Catalogue}
    (outlined : catalogue.outline.Perm [("b", ["c"]), ("c", [])])
    (name next : String) :
    catalogue.Requires Field.requirements name next ↔
      name = "b" ∧ next = "c" := by
  rw [Catalogue.requires_iff_outline]
  simp only [outlined.mem_iff]
  constructor
  · rintro ⟨required, listed, member⟩
    rcases List.mem_pair.mp listed with same | same
    · cases same
      exact ⟨rfl, List.mem_singleton.mp member⟩
    · cases same
      cases member
  · rintro ⟨rfl, rfl⟩
    exact ⟨["c"], by decide, by decide⟩

/-- The library that is named first comes first. -/
theorem static_libraries_ordered :
    settings.isOn .linkStatic = true ∧
      ∃ catalogue between list finish,
        Catalogue.resolve settings ["b c"] settings.freshLedger =
          .ok catalogue between ∧
        catalogue.LinksItself ∧
        FlagClass.libs.collect settings catalogue .any settings.freshLedger =
          .ok list finish ∧
        list.survivors = ["-lb", "-lc"] ∧
        (∀ name next, catalogue.Requires Field.requirements name next →
          [libraryFlag name, libraryFlag next].Sublist list.survivors) ∧
        FirstSeen catalogue.requiredBy [] ["b", "c"] ["b", "c"] := by
  have static : settings.isOn .linkStatic = true := by decide
  rcases resolve_needed_last with ⟨catalogue, between, resolved, shown⟩
  simp only [Prod.mk.injEq, decide_eq_true_eq] at shown
  rcases shown with ⟨outlined, linksItself, collects⟩
  rcases collect_of_collects collects with ⟨list, finish, collected⟩
  rcases static_libraries_ordered_iff static resolved linksItself collected with
    ⟨survivors, ordered, seen⟩
  have names : catalogue.realnames = ["b", "c"] := by
    rw [Catalogue.realnames_eq_outline, outlined]
    rfl
  have unique : catalogue.realnames.Nodup := by
    rw [names]
    decide
  rw [names] at survivors ordered seen
  refine ⟨static, catalogue, between, list, finish, resolved, linksItself,
    collected, survivors, ordered.mpr ?_, seen (by decide) (by decide)⟩
  intro name next required
  rw [← Catalogue.requires_iff unique, requires_iff (by rw [outlined])]
    at required
  rw [required.1, required.2]

/-- The library that is needed comes first if it is named first. -/
theorem static_libraries_reversed :
    settings.isOn .linkStatic = true ∧
      ∃ catalogue between list finish,
        Catalogue.resolve settings ["c b"] settings.freshLedger =
          .ok catalogue between ∧
        catalogue.LinksItself ∧
        (∀ name next, catalogue.Requires Field.requirements name next ↔
          name = "b" ∧ next = "c") ∧
        FlagClass.libs.collect settings catalogue .any settings.freshLedger =
          .ok list finish ∧
        list.survivors = ["-lc", "-lb"] ∧
        ¬ [libraryFlag "b", libraryFlag "c"].Sublist list.survivors := by
  have static : settings.isOn .linkStatic = true := by decide
  rcases resolve_needed_first with ⟨catalogue, between, resolved, shown⟩
  simp only [Prod.mk.injEq, decide_eq_true_eq] at shown
  rcases shown with ⟨outlined, linksItself, collects⟩
  rcases collect_of_collects collects with ⟨list, finish, collected⟩
  have names : catalogue.realnames = ["c", "b"] := by
    rw [Catalogue.realnames_eq_outline, outlined]
    rfl
  have survivors : list.survivors = ["-lc", "-lb"] := by
    rw [linksItself.survivors_eq static (by rw [names]; decide) collected,
      names]
    rfl
  refine ⟨static, catalogue, between, list, finish, resolved, linksItself, ?_,
    collected, survivors, ?_⟩
  · apply requires_iff
    rw [outlined]
    exact .swap _ _ _
  · rw [survivors]
    decide

end TwoLibraries

end PkgConfig
