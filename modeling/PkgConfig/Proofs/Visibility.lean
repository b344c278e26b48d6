import PkgConfig.Proofs.Evaluation
import PkgConfig.Proofs.Reachability
import PkgConfig.Proofs.Survivors
import PkgConfig.Proofs.Switching

namespace PkgConfig

/-! Which library flags are printed in the end. Without static linking they are
the words of the packages that public requirements lead to, with it those of all
packages, the private ones included. -/

theorem Reaches.mono {left right : String → String → Prop}
    {asked : List String} {name : String}
    (weaker : ∀ name next, left name next → right name next)
    (reached : Reaches left asked name) : Reaches right asked name :=
  reached.closed (fun _ member => .of_asked member)
    fun _ _ later edge => later.required (weaker _ _ edge)

namespace Catalogue

/-- A package that requirements of these kinds lead to has the argument as a word
of one of these fields. -/
def Links (catalogue : Catalogue) (arguments : List String)
    (kinds fields : List Field) (argument : String) : Prop :=
  ∃ package ∈ catalogue.packages,
    Reaches (catalogue.Requires kinds) (namesInArguments arguments)
        package.realname ∧
      ∃ field ∈ fields, argument.toList ∈ package.splitWords field

theorem Requires.mono {catalogue : Catalogue} {fewer more : List Field}
    (within : fewer ⊆ more) {name next : String}
    (required : catalogue.Requires fewer name next) :
    catalogue.Requires more name next := by
  rcases required with ⟨package, listed, named, field, member, entry⟩
  exact ⟨package, listed, named, field, within member, entry⟩

theorem Links.mono {catalogue : Catalogue} {arguments : List String}
    {kinds moreKinds fields moreFields : List Field} {argument : String}
    (kindsWithin : kinds ⊆ moreKinds) (fieldsWithin : fields ⊆ moreFields)
    (links : catalogue.Links arguments kinds fields argument) :
    catalogue.Links arguments moreKinds moreFields argument := by
  rcases links with ⟨package, listed, reached, field, member, word⟩
  exact ⟨package, listed, reached.mono fun _ _ => Requires.mono kindsWithin,
    field, fieldsWithin member, word⟩

end Catalogue

section

variable {settings : Settings} {arguments : List String}
  {catalogue : Catalogue} {list : ArgumentList}
  {before between after finish : Ledger}
  (recursive : settings.isOn .skipRequires = false)
  (unlimited : maxFrames < settings.maxTraversalDepth)
  (resolved : Catalogue.resolve settings arguments before =
    .ok catalogue between)
  (collected : FlagClass.libs.collect settings catalogue .any after =
    .ok list finish)

include recursive unlimited resolved collected

private theorem mem_survivors_shared
    (shared : settings.isOn .linkStatic = false) (argument : String) :
    argument ∈ list.survivors ↔
      catalogue.Links arguments Field.interface [.libs] argument ∧
        argument ∉ FlagClass.libs.excludedFlags settings := by
  rcases reads_of_resolve resolved with ⟨final, reads⟩
  have readable := Walk.readsRequirements_of_unlimited recursive unlimited
  rw [FlagClass.mem_survivors_of_collect collected]
  simp only [Filter.accepts, true_and]
  refine and_congr_left fun _ => exists_congr fun package =>
    and_congr_right fun listed => ?_
  rw [← reads.exposed_iff readable listed]
  cases exposed : package.marks.exposed <;>
    simp [FlagClass.fields, shared, exposed]

private theorem mem_survivors_static (static : settings.isOn .linkStatic = true)
    (argument : String) :
    argument ∈ list.survivors ↔
      catalogue.Links arguments Field.requirements [.libs, .libsPrivate]
          argument ∧
        argument ∉ FlagClass.libs.excludedFlags settings := by
  rcases reads_of_resolve resolved with ⟨final, reads⟩
  have readable := Walk.readsRequirements_of_unlimited recursive unlimited
  rw [FlagClass.mem_survivors_of_collect collected]
  simp only [Filter.accepts, true_and]
  refine and_congr_left fun _ => exists_congr fun package =>
    and_congr_right fun listed => ?_
  have reached := (reads.mem_realnames_iff readable package.realname).mp
    (List.mem_map_of_mem listed)
  simp [FlagClass.fields, static, reached]

end

private theorem FlagClass.excludedFlags_static (settings : Settings)
    (flagClass : FlagClass) :
    flagClass.excludedFlags settings.static =
      flagClass.excludedFlags settings := by
  have keeps : settings.static.isOn flagClass.keepSystem =
      settings.isOn flagClass.keepSystem := by
    rw [settings.isOn_static]
    cases flagClass <;> simp [keepSystem]
  unfold excludedFlags excludedDirectories
  rw [keeps]
  cases flagClass <;> rfl

/-- The library flags that are printed, as a set. Every name that can be reached
has its package; the flags are the words of the packages that count, but for
those of system directories; and linking everything in only adds to them. -/
theorem libraries_visible {settings : Settings} {arguments : List String}
    {catalogue : Catalogue} {list : ArgumentList}
    {before between after finish : Ledger}
    (recursive : settings.isOn .skipRequires = false)
    (unlimited : maxFrames < settings.maxTraversalDepth)
    (resolved : Catalogue.resolve settings arguments before =
      .ok catalogue between)
    (collected : FlagClass.libs.collect settings catalogue .any after =
      .ok list finish) :
    (∀ name, Reaches (catalogue.Requires Field.requirements)
        (namesInArguments arguments) name → name ∈ catalogue.realnames) ∧
    (settings.isOn .linkStatic = false → ∀ argument,
      argument ∈ list.survivors ↔
        catalogue.Links arguments Field.interface [.libs] argument ∧
          argument ∉ FlagClass.libs.excludedFlags settings) ∧
    (settings.isOn .linkStatic = true → ∀ argument,
      argument ∈ list.survivors ↔
        catalogue.Links arguments Field.requirements [.libs, .libsPrivate]
            argument ∧
          argument ∉ FlagClass.libs.excludedFlags settings) ∧
    ∀ (whole : Catalogue) (larger : ArgumentList)
      (between' after' finish' : Ledger),
      Catalogue.resolve settings.static arguments before =
        .ok whole between' →
      FlagClass.libs.collect settings.static whole .any after' =
        .ok larger finish' →
      list.survivors ⊆ larger.survivors := by
  refine ⟨?_, ?_, ?_, ?_⟩
  · rcases reads_of_resolve resolved with ⟨final, reads⟩
    have readable := Walk.readsRequirements_of_unlimited recursive unlimited
    exact fun name => (reads.mem_realnames_iff readable name).mpr
  · exact mem_survivors_shared recursive unlimited resolved collected
  · exact mem_survivors_static recursive unlimited resolved collected
  · intro whole larger between' after' finish' resolved' collected' argument
      survives
    have recursive' : settings.static.isOn .skipRequires = false := by
      rw [settings.isOn_static, recursive]
      rfl
    have same := resolved'
    rw [settings.static_resolveAlike.resolve_eq, resolved] at same
    cases same
    rw [mem_survivors_static recursive' unlimited resolved' collected'
      (by simp [settings.isOn_static]), FlagClass.excludedFlags_static]
    cases linked : settings.isOn .linkStatic with
    | true =>
        exact (mem_survivors_static recursive unlimited resolved collected
          linked argument).mp survives
    | false =>
        rcases (mem_survivors_shared recursive unlimited resolved collected
          linked argument).mp survives with ⟨links, included⟩
        exact ⟨links.mono (by decide) (by decide), included⟩

/-! ## A private requirement -/

namespace PrivateLibrary

def settings : Settings :=
  FileTable.settings .none
    [FileTable.metadataFile "a" "Requires.private: b\nLibs: -L/lib -la\n",
      FileTable.metadataFile "b" "Libs: -lb\n"]

private def printed? (settings : Settings) (catalogue : Catalogue) :
    Option (List String) :=
  match FlagClass.libs.collect settings catalogue .any settings.freshLedger with
  | .ok list _ => some list.survivors
  | .error .. => none

private theorem collect_of_printed? {settings : Settings}
    {catalogue : Catalogue}
    {flags : List String} (printed : printed? settings catalogue = some flags) :
    ∃ list finish, FlagClass.libs.collect settings catalogue .any
      settings.freshLedger = .ok list finish ∧ list.survivors = flags := by
  unfold printed? at printed
  split at printed
  next list finish collected =>
    exact ⟨list, finish, collected, Option.some.inj printed⟩
  · cases printed

private theorem resolve_printed :
    ∃ catalogue after,
      Catalogue.resolve settings ["a"] settings.freshLedger =
        .ok catalogue after ∧
      (printed? settings catalogue, printed? settings.static catalogue) =
        (some ["-la"], some ["-la", "-lb"]) := by
  apply Catalogue.resolve_of_resolve?
  cbv

/-- The flag of the private library is printed for static linking only, the one
of the system directory never. -/
theorem libraries_visible_private :
    settings.isOn .skipRequires = false ∧
      maxFrames < settings.maxTraversalDepth ∧
      settings.isOn .linkStatic = false ∧
      ∃ catalogue between list finish larger finish',
        Catalogue.resolve settings ["a"] settings.freshLedger =
          .ok catalogue between ∧
        FlagClass.libs.collect settings catalogue .any settings.freshLedger =
          .ok list finish ∧
        Catalogue.resolve settings.static ["a"] settings.freshLedger =
          .ok catalogue between ∧
        FlagClass.libs.collect settings.static catalogue .any
          settings.freshLedger = .ok larger finish' ∧
        list.survivors = ["-la"] ∧ larger.survivors = ["-la", "-lb"] ∧
        list.survivors ⊆ larger.survivors ∧
        ¬ catalogue.Links ["a"] Field.interface [.libs] "-lb" ∧
        catalogue.Links ["a"] Field.requirements [.libs, .libsPrivate]
          "-lb" := by
  have recursive : settings.isOn .skipRequires = false := by decide
  have unlimited : maxFrames < settings.maxTraversalDepth := by decide
  have shared : settings.isOn .linkStatic = false := by decide
  rcases resolve_printed with ⟨catalogue, between, resolved, shown⟩
  rcases Prod.mk.inj shown with ⟨printed, printed'⟩
  rcases collect_of_printed? printed with ⟨list, finish, collected, flags⟩
  rcases collect_of_printed? printed' with
    ⟨larger, finish', collected', flags'⟩
  have again : Catalogue.resolve settings.static ["a"] settings.freshLedger =
      .ok catalogue between := by
    rw [settings.static_resolveAlike.resolve_eq]
    exact resolved
  rcases libraries_visible recursive unlimited resolved collected with
    ⟨_, visible, _, larger_of⟩
  have included : "-lb" ∉ FlagClass.libs.excludedFlags settings := by
    intro excluded
    exact absurd (FlagClass.hasFlag_of_mem_excludedFlags excluded) (by decide)
  have recursive' : settings.static.isOn .skipRequires = false := by decide
  rcases libraries_visible recursive' unlimited again collected' with
    ⟨_, _, visible', _⟩
  refine ⟨recursive, unlimited, shared, catalogue, between, list, finish, larger,
    finish', resolved, collected, again, collected', flags, flags',
    larger_of _ _ _ _ _ again collected', ?_, ?_⟩
  · intro links
    have survives := (visible shared "-lb").mpr ⟨links, included⟩
    rw [flags] at survives
    exact absurd survives (by decide)
  · refine ((visible' (by decide) "-lb").mp ?_).1
    rw [flags']
    decide

end PrivateLibrary

end PkgConfig
