namespace PkgConfig

/-! A budget counts the bytes that a run may still take up. A charge that does
not fit is refused and changes nothing; a release goes back to an earlier
mark. -/

structure Budget where
  capacity : Nat
  used : Nat
  within : used ≤ capacity

namespace Budget

def fresh (capacity : Nat) : Budget where
  capacity := capacity
  used := 0
  within := Nat.zero_le capacity

def remaining (budget : Budget) : Nat := budget.capacity - budget.used

@[inline] def charge? (budget : Budget) (bytes : Nat) : Option Budget :=
  if fits : budget.used + bytes ≤ budget.capacity then
    some { capacity := budget.capacity, used := budget.used + bytes, within := fits }
  else
    none

/-- Go back to a mark. A mark above the present usage releases nothing. -/
def release (budget : Budget) (mark : Nat) : Budget where
  capacity := budget.capacity
  used := min budget.used mark
  within := Nat.le_trans (Nat.min_le_left ..) budget.within

example : ((fresh 10).charge? 11).isNone := by decide

end Budget

end PkgConfig
