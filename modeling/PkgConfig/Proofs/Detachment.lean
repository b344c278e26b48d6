import PkgConfig.Proofs.Reading

namespace PkgConfig

/-! The position that a session carries from one argument to the next. While an
argument is read it is neither looked at nor changed: reading goes by a position
of its own. -/

def Session.movedTo (session : Session) (position : Position) : Session :=
  { session with
    resolution := { session.resolution with position := position } }

namespace Resolve

def moveResult (position : Position) :
    EStateM.Result Error Session α → EStateM.Result Error Session α
  | .ok value after => .ok value (after.movedTo position)
  | .error error after => .error error (after.movedTo position)

/-- The position of the session makes no difference, and stays as it is. -/
def Detached (computation : Resolve α) : Prop :=
  ∀ session position, computation (session.movedTo position) =
    moveResult position (computation session)

namespace Detached

theorem ofRun (run : Run α) : Detached (ofRun run) := by
  intro session position
  unfold Resolve.ofRun
  have same : (session.movedTo position).ledger = session.ledger := rfl
  rw [same]
  cases run session.ledger <;> rfl

theorem bind {first : Resolve α} {second : α → Resolve β}
    (earlier : Detached first) (later : ∀ value, Detached (second value)) :
    Detached (first >>= second) := by
  intro session position
  simp only [Bind.bind, EStateM.bind, earlier session position]
  cases first session with
  | ok value after => exact later value after position
  | error error after => rfl

theorem compositional (settings : Settings) :
    Compositional settings Detached where
  pure _ := fun _ _ => rfl
  throw _ := fun _ _ => rfl
  bind := bind
  catalogue := fun _ _ => rfl
  setCatalogue _ := fun _ _ => rfl
  note _ := ofRun _
  find _ := ofRun _

theorem moveResult_eq {computation : Resolve α} (detached : Detached computation)
    (session : Session) :
    moveResult session.resolution.position (computation session) =
      computation session :=
  (detached session session.resolution.position).symm

theorem readTokens (settings : Settings) (tokens : List String)
    (position : Position) :
    Detached (tokens.foldlM (RecursiveWalk.readToken settings 1 0 .named)
      position) :=
  (compositional settings).foldlM
    ((compositional settings).readToken 1 0 .named) tokens position

end Detached

end Resolve

end PkgConfig
