namespace PkgConfig

/-! A stack of bounded height loses weight when an entry gets smaller, whatever
is then put on top of it. Heights are compared from the bottom up, so the weight
of a stack is a tuple with the bottom entry first. -/

def StackWeight : Nat → Type
  | 0 => Unit
  | height + 1 => Nat × StackWeight height

namespace StackWeight

def Less : (height : Nat) → StackWeight height → StackWeight height → Prop
  | 0 => emptyRelation
  | height + 1 => Prod.Lex (· < ·) (Less height)

private theorem less_wellFounded : ∀ height, WellFounded (Less height)
  | 0 => emptyWf.wf
  | height + 1 =>
      (Prod.lex Nat.lt_wfRel ⟨Less height, less_wellFounded height⟩).wf

instance (height : Nat) : WellFoundedRelation (StackWeight height) :=
  ⟨Less height, less_wellFounded height⟩

def weigh : (height : Nat) → List Nat → StackWeight height
  | 0, _ => ()
  | height + 1, [] => (0, weigh height [])
  | height + 1, bottom :: above => (bottom, weigh height above)

private theorem weigh_append_less {height : Nat}
    (below above replaced : List Nat)
    {old new : Nat} (room : below.length < height) (smaller : new < old) :
    Less height (weigh height (below ++ new :: above))
      (weigh height (below ++ old :: replaced)) := by
  induction below generalizing height with
  | nil =>
      cases height with
      | zero => cases room
      | succ height => exact .left _ _ smaller
  | cons bottom below induction =>
      cases height with
      | zero => cases room
      | succ height =>
          exact .right _ (induction (Nat.lt_of_succ_lt_succ room))

private theorem weigh_less_append {height : Nat} (below : List Nat) {old : Nat}
    (room : below.length < height) (positive : 0 < old) :
    Less height (weigh height below) (weigh height (below ++ [old])) := by
  induction below generalizing height with
  | nil =>
      cases height with
      | zero => cases room
      | succ height => exact .left _ _ positive
  | cons bottom below induction =>
      cases height with
      | zero => cases room
      | succ height =>
          exact .right _ (induction (Nat.lt_of_succ_lt_succ room))

/-- The weight of a stack whose top entry comes first. -/
def ofStack (size : α → Nat) (height : Nat) (stack : List α) :
    StackWeight height :=
  weigh height (stack.reverse.map size)

theorem ofStack_replace_less {size : α → Nat} {height : Nat} (above : List α)
    {old new : α} {below : List α} (room : below.length < height)
    (smaller : size new < size old) :
    Less height (ofStack size height (above ++ new :: below))
      (ofStack size height (old :: below)) := by
  have less := weigh_append_less (below.reverse.map size)
    (above.reverse.map size) [] (by simpa using room) smaller
  simpa [ofStack] using less

theorem ofStack_pop_less {size : α → Nat} {height : Nat} {old : α}
    {below : List α} (room : below.length < height) (positive : 0 < size old) :
    Less height (ofStack size height below)
      (ofStack size height (old :: below)) := by
  have less := weigh_less_append (below.reverse.map size)
    (by simpa using room) positive
  simpa [ofStack] using less

end StackWeight

end PkgConfig
