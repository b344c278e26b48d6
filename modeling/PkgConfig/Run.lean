import PkgConfig.Budget
import PkgConfig.Journal
import PkgConfig.Text.Character

namespace PkgConfig

/-! A run may fail, and keeps what it has charged and noted so far when it
does. -/

structure Ledger where
  budget : Budget
  events : List Event

namespace Ledger

def fresh (capacity : Nat) : Ledger where
  budget := .fresh capacity
  events := []

def used (ledger : Ledger) : Nat := ledger.budget.used

def note (ledger : Ledger) (event : Event) : Ledger :=
  { ledger with events := event :: ledger.events }

def release (ledger : Ledger) (mark : Nat) : Ledger :=
  { ledger with budget := ledger.budget.release mark }

def journal (ledger : Ledger) : List Event := ledger.events.reverse

end Ledger

abbrev Run := EStateM Error Ledger

namespace Run

/-! ## Sequencing -/

theorem bind_eq_ok_iff {first : Run α} {second : α → Run β} {value : β}
    {before after : Ledger} :
    (first >>= second) before = .ok value after ↔
      ∃ result between, first before = .ok result between ∧
        second result between = .ok value after := by
  simp only [bind, EStateM.bind]
  split
  next result between equal => simp [equal, and_assoc]
  next error between equal => simp [equal]

theorem bind_eq_error_iff {first : Run α} {second : α → Run β} {error : Error}
    {before after : Ledger} :
    (first >>= second) before = .error error after ↔
      first before = .error error after ∨
        ∃ result between, first before = .ok result between ∧
          second result between = .error error after := by
  simp only [bind, EStateM.bind]
  split
  next result between equal => simp [equal, and_assoc]
  next error between equal => simp [equal]

@[simp] theorem pure_apply (value : α) (ledger : Ledger) :
    (pure value : Run α) ledger = .ok value ledger := rfl

@[simp] theorem throw_apply (error : Error) (ledger : Ledger) :
    (throw error : Run α) ledger = .error error ledger := rfl

/-! ## Steps -/

def note (event : Event) : Run Unit := fun ledger =>
  .ok () (ledger.note event)

def used : Run Nat := fun ledger => .ok ledger.used ledger

def release (mark : Nat) : Run Unit := fun ledger =>
  .ok () (ledger.release mark)

@[inline] def charge (bytes : Nat) : Run Unit := fun ledger =>
  match ledger.budget.charge? bytes with
  | some budget => .ok () { ledger with budget := budget }
  | none =>
      .error .outOfMemory (ledger.note
        (.exhausted ledger.used ledger.budget.capacity bytes))

/-- Carry on after an error. What was charged and noted stays. -/
def attempt (run : Run α) : Run (Except Error α) := fun ledger =>
  match run ledger with
  | .ok value ledger => .ok (.ok value) ledger
  | .error error ledger => .ok (.error error) ledger

theorem toList_foldl_push (output : String) (text : List Char) :
    (text.foldl String.push output).toList = output.toList ++ text := by
  induction text generalizing output with
  | nil => simp
  | cons head rest induction => simp [induction]

@[inline] def append (output : String) : List Char → Run String
  | [] => return output
  | text => do
      charge (Text.byteLength text)
      return text.foldl String.push output

def chargeEach : List Char → Run Unit
  | [] => pure ()
  | character :: rest => do
      charge character.utf8Size
      chargeEach rest

end Run

end PkgConfig
