import PkgConfig.Proofs.Loading

namespace PkgConfig

/-! What can go wrong while a package is loaded. The errors are those of files
and of budgets; nothing that is said about operators and versions comes from
there. -/

namespace Run

def OnlyLoads (run : Run α) : Prop :=
  ∀ before error after, run before = .error error after →
    error.isLoading = true

theorem OnlyLoads.compositional : Compositional OnlyLoads where
  pure value := by
    intro before error after failed
    cases failed
  throw loading := by
    intro before error after failed
    cases failed
    exact loading
  bind earlier later := by
    intro before error after failed
    rcases bind_eq_error_iff.mp failed with failed | ⟨_, _, _, failed⟩
    · exact earlier _ _ _ failed
    · exact later _ _ _ _ failed
  note event := by
    intro before error after failed
    cases failed
  charge bytes := by
    intro before error after failed
    unfold Run.charge at failed
    split at failed
    · cases failed
    · cases failed
      rfl

end Run

/-- Whatever the files hold, finding a package fails for reasons of loading. -/
theorem Package.find_onlyLoads (settings : Settings) (token : String) :
    Run.OnlyLoads (find settings token) :=
  Run.OnlyLoads.compositional.find settings token

end PkgConfig
