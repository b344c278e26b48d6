import PkgConfig.Proofs.Openings

namespace PkgConfig

/-! Which switches a resolution depends on. Those that only say what is printed
make no difference to it. -/

def Switch.forResolution : List Switch :=
  [.definePrefix, .skipRequires, .ignoreVersions]

namespace Settings

/-- The settings agree in all that resolution looks at. -/
def ResolveAlike (left right : Settings) : Prop :=
  ∃ switches, left = right.withSwitches switches ∧
    ∀ switch ∈ Switch.forResolution, switches.isOn switch = right.isOn switch

section

variable {left right : Settings} (alike : left.ResolveAlike right)

include alike

private theorem ResolveAlike.isOn_eq {switch : Switch}
    (listed : switch ∈ Switch.forResolution) :
    left.isOn switch = right.isOn switch := by
  rcases alike with ⟨switches, rfl, same⟩
  exact same switch listed

/-! ## Loading -/

private theorem ResolveAlike.ofSource_eq (realname path source : String) :
    Package.ofSource left realname path source =
      Package.ofSource right realname path source := by
  have placed : ∀ bindings,
      Package.placeVariables left realname path bindings =
        Package.placeVariables right realname path bindings := by
    intro bindings
    unfold Package.placeVariables
    rw [alike.isOn_eq (by decide)]
  unfold Package.ofSource Package.ofFields
  simp only [placed]
  rcases alike with ⟨switches, rfl, _⟩
  rfl

private theorem ResolveAlike.locateAmong?_eq (token : String)
    (candidates : List String) :
    Package.locateAmong? left token candidates =
      Package.locateAmong? right token candidates := by
  rcases alike with ⟨switches, rfl, _⟩
  induction candidates with
  | nil => rfl
  | cons candidate rest induction =>
      simp only [Package.locateAmong?, induction]
      rfl

private theorem ResolveAlike.find_eq (token : String) :
    Package.find left token = Package.find right token := by
  have among := alike.locateAmong?_eq token
  have located : Package.locate? left token = Package.locate? right token := by
    unfold Package.locate? Package.locateByName?
    simp only [among]
    rcases alike with ⟨switches, rfl, _⟩
    rfl
  simp only [Package.find, located, alike.ofSource_eq]

/-! ## Steps -/

private theorem ResolveAlike.step_eq (walk : Walk) :
    Walk.step left walk = Walk.step right walk := by
  have depth : left.maxTraversalDepth = right.maxTraversalDepth := by
    rcases alike with ⟨switches, rfl, _⟩
    rfl
  have checked : left.isOn .ignoreVersions = right.isOn .ignoreVersions :=
    alike.isOn_eq (by decide)
  have skipped : left.isOn .skipRequires = right.isOn .skipRequires :=
    alike.isOn_eq (by decide)
  rcases walk with ⟨⟨tokens, position, list, marks⟩, below, bounded⟩
  cases tokens with
  | nil => cases below <;> rfl
  | cons token tokens =>
      simp only [Walk.step, Walk.checkVersion, Walk.visit, Walk.discover,
        Walk.revisit, Walk.readsRequirements, checked, skipped, depth,
        alike.find_eq]

private theorem ResolveAlike.run_eq (walk : Walk) :
    Walk.run left walk = Walk.run right walk := by
  funext before
  rcases Walk.exists_runs left walk before with ⟨visited, opened, runs⟩
  generalize Walk.run left walk before = result at runs
  symm
  induction runs with
  | finished stepped =>
      rw [alike.step_eq] at stepped
      exact (Walk.Runs.finished stepped).result_eq
  | failed stepped =>
      rw [alike.step_eq] at stepped
      exact (Walk.Runs.failed stepped).result_eq
  | continued stepped _ _ induction =>
      rw [alike.step_eq] at stepped
      rw [Walk.run_eq_step]
      simp only [bind, EStateM.bind, stepped]
      exact induction

/-! ## Command lines -/

theorem ResolveAlike.pushAll_eq (arguments : List String) :
    Resolve.pushAll left arguments = Resolve.pushAll right arguments := by
  induction arguments with
  | nil => rfl
  | cons argument rest induction =>
      have push : Resolve.push left argument = Resolve.push right argument := by
        funext session
        rw [Resolve.push_eq_conclude, Resolve.push_eq_conclude, alike.run_eq]
      simp only [Resolve.pushAll, push, induction]

theorem ResolveAlike.resolve_eq (arguments : List String) :
    Catalogue.resolve left arguments = Catalogue.resolve right arguments := by
  unfold Catalogue.resolve
  rw [alike.pushAll_eq]

end

def static (settings : Settings) : Settings :=
  settings.withSwitches (settings.switches.set .linkStatic true)

theorem isOn_static (settings : Settings) (switch : Switch) :
    settings.static.isOn switch =
      (settings.isOn switch || decide (switch = .linkStatic)) := by
  simp [static, withSwitches, isOn, Switches.set, Switches.union,
    Switches.ofList]

theorem static_resolveAlike (settings : Settings) :
    settings.static.ResolveAlike settings := by
  refine ⟨_, rfl, ?_⟩
  intro switch listed
  have other : switch ≠ .linkStatic := by
    rintro rfl
    exact absurd listed (by decide)
  have shown := settings.isOn_static switch
  rw [decide_eq_false other, Bool.or_false] at shown
  exact shown

end Settings

end PkgConfig
