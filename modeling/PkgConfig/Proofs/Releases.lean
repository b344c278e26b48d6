import PkgConfig.Overflow
import PkgConfig.Proofs.Charges

namespace PkgConfig

/-! Charges, marks and releases in any order. A mark is a plain number: it can be
gone back to at any time and as often as one likes, also after an earlier mark,
which may leave it above the usage. Sizes are 64-bit words, and what is counted
in words is what the budget counts. -/

/-! ## Operations -/

inductive Charge where
  | bytes (count : UInt64)
  | text (written : String) (fits : written.utf8ByteSize < UInt64.size)
  | character (written : Char)

namespace Charge

private theorem utf8Size_lt_size (character : Char) :
    character.utf8Size < UInt64.size :=
  Nat.lt_of_le_of_lt character.utf8Size_le_four (by decide)

def size : Charge → UInt64
  | .bytes count => count
  | .text written fits => .ofNatLT written.utf8ByteSize fits
  | .character written => .ofNatLT written.utf8Size (utf8Size_lt_size written)

def letters : Charge → List Char
  | .bytes _ => []
  | .text written _ => written.toList
  | .character written => [written]

def run (charge : Charge) (output : String) : Run String :=
  match charge with
  | .bytes count => do
      Run.charge count.toNat
      return output
  | .text written _ => Run.append output written.toList
  | .character written => Run.append output [written]

private theorem run_cases (charge : Charge) (output : String)
    (before : Ledger) :
    (∃ written after, charge.run output before = .ok written after ∧
      written.toList = output.toList ++ charge.letters ∧
      before.Charged charge.size.toNat after) ∨
    (before.budget.capacity < before.used + charge.size.toNat ∧
      charge.run output before = .error .outOfMemory (before.note
        (.exhausted before.used before.budget.capacity charge.size.toNat))) := by
  cases charge with
  | bytes count =>
      rcases Run.charge_cases count.toNat before with
        ⟨after, paid, charged⟩ | ⟨exceeds, refused⟩
      · refine .inl ⟨output, after, ?_, (List.append_nil _).symm, charged⟩
        simp only [run, bind, EStateM.bind, paid]
        rfl
      · refine .inr ⟨exceeds, ?_⟩
        simp only [run, bind, EStateM.bind, refused]
        rfl
  | text written fits =>
      have bytes : Text.byteLength written.toList =
          (Charge.text written fits).size.toNat := by
        rw [Text.byteLength_eq_utf8ByteSize, String.ofList_toList, size,
          UInt64.toNat_ofNatLT]
      rw [← bytes]
      exact Run.append_cases output written.toList before
  | character written =>
      have bytes : Text.byteLength [written] =
          (Charge.character written).size.toNat := by
        rw [size, UInt64.toNat_ofNatLT, Text.byteLength_cons,
          Text.byteLength_nil, Nat.add_zero]
      rw [← bytes]
      exact Run.append_cases output [written] before

end Charge

/-- A release goes back to a mark by its number. The mark that was taken first
has number zero. -/
inductive Operation where
  | charge (charge : Charge)
  | mark
  | release (number : Nat)

structure Draft where
  ledger : Ledger
  text : String
  marks : List Nat

namespace Draft

def fresh (capacity : UInt64) : Draft where
  ledger := .fresh capacity.toNat
  text := ""
  marks := []

def used (draft : Draft) : Nat := draft.ledger.used

def remaining (draft : Draft) : Nat := draft.ledger.budget.remaining

/-- The draft after an operation. A number that no mark has releases nothing. -/
def after (draft : Draft) : Operation → Draft
  | .charge charge =>
      match charge.run draft.text draft.ledger with
      | .ok text ledger => { draft with ledger := ledger, text := text }
      | .error _ ledger => { draft with ledger := ledger }
  | .mark => { draft with marks := draft.marks ++ [draft.used] }
  | .release number =>
      match draft.marks[number]? with
      | some mark => { draft with ledger := draft.ledger.release mark }
      | none => draft

/-- Operations that follow a refused one are performed nevertheless. -/
def afterAll (draft : Draft) (operations : List Operation) : Draft :=
  operations.foldl after draft

def Refuses (draft : Draft) (charge : Charge) : Prop :=
  ∃ error ledger, charge.run draft.text draft.ledger = .error error ledger

def refusal (draft : Draft) (charge : Charge) : Event :=
  .exhausted draft.used draft.ledger.budget.capacity charge.size.toNat

inductive Spends (draft : Draft) (charge : Charge) (after : Draft) : Prop where
  | made (accepted : ¬ draft.Refuses charge)
      (charged : draft.ledger.Charged charge.size.toNat after.ledger)
      (text : after.text.toList = draft.text.toList ++ charge.letters)
      (marks : after.marks = draft.marks)
  | refused (refused : draft.Refuses charge)
      (exceeds : draft.ledger.budget.capacity <
        draft.used + charge.size.toNat)
      (noted : after =
        { draft with ledger := draft.ledger.note (draft.refusal charge) })

variable {draft : Draft}

private theorem spends (draft : Draft) (charge : Charge) :
    draft.Spends charge (draft.after (.charge charge)) := by
  rcases charge.run_cases draft.text draft.ledger with
    ⟨text, ledger, ran, stands, charged⟩ | ⟨exceeds, ran⟩
  · have accepted : ¬ draft.Refuses charge := by
      rintro ⟨error, other, failed⟩
      rw [ran] at failed
      cases failed
    rw [after, ran]
    exact .made accepted charged stands rfl
  · rw [after, ran]
    exact .refused ⟨_, _, ran⟩ exceeds rfl

private theorem refuses_iff {charge : Charge} :
    draft.Refuses charge ↔
      draft.ledger.budget.capacity < draft.used + charge.size.toNat := by
  cases draft.spends charge with
  | made accepted charged =>
      exact iff_of_false accepted (Nat.not_lt_of_le charged.fits)
  | refused refused exceeds => exact iff_of_true refused exceeds

private theorem after_refused {charge : Charge}
    (refused : draft.Refuses charge) : draft.after (.charge charge) =
      { draft with ledger := draft.ledger.note (draft.refusal charge) } := by
  cases draft.spends charge with
  | made accepted => exact absurd refused accepted
  | refused _ _ noted => exact noted

private theorem after_accepted {charge : Charge}
    (accepted : ¬ draft.Refuses charge) :
    (draft.after (.charge charge)).used = draft.used + charge.size.toNat ∧
      (draft.after (.charge charge)).text.toList =
        draft.text.toList ++ charge.letters := by
  cases draft.spends charge with
  | made _ charged text => exact ⟨charged.used, text⟩
  | refused refused => exact absurd refused accepted

private theorem used_add_remaining (draft : Draft) :
    draft.used + draft.remaining = draft.ledger.budget.capacity :=
  Nat.add_sub_cancel' draft.ledger.budget.within

private theorem release_used_le (draft : Draft) (number : Nat) :
    (draft.after (.release number)).used ≤ draft.used := by
  rw [after]
  split
  · exact Nat.min_le_left _ _
  · exact Nat.le_refl _

/-! ## Since a mark -/

/-- What holds from a mark on, as long as no earlier mark is gone back to: the
usage is not below the mark, and no later mark is. -/
structure Since (number mark : Nat) (draft : Draft) : Prop where
  taken : draft.marks[number]? = some mark
  used : mark ≤ draft.used
  later {other level : Nat} : number ≤ other →
    draft.marks[other]? = some level → mark ≤ level

def ReleasesFrom (number : Nat) (operations : List Operation) : Prop :=
  ∀ other, .release other ∈ operations → number ≤ other

namespace Since

variable {number mark : Nat}

private theorem taking (draft : Draft) :
    Since draft.marks.length draft.used (draft.after .mark) where
  taken := List.getElem?_concat_length
  used := Nat.le_refl _
  later {other level} behind found := by
    rw [after, List.getElem?_append_right behind] at found
    have newest := List.mem_singleton.mp (List.mem_of_getElem? found)
    exact Nat.le_of_eq newest.symm

theorem step (since : Since number mark draft) {operation : Operation}
    (behind : ReleasesFrom number [operation]) :
    Since number mark (draft.after operation) := by
  cases operation with
  | charge charge =>
      cases draft.spends charge with
      | made _ charged _ marks =>
          have more : (draft.after (.charge charge)).used =
              draft.used + charge.size.toNat := charged.used
          refine ⟨marks ▸ since.taken, ?_, marks ▸ since.later⟩
          rw [more]
          exact Nat.le_trans since.used (Nat.le_add_right _ _)
      | refused _ _ noted =>
          rw [noted]
          exact ⟨since.taken, since.used, since.later⟩
  | mark =>
      have inside : number < draft.marks.length :=
        (List.getElem?_eq_some_iff.mp since.taken).1
      refine ⟨?_, since.used, ?_⟩
      · rw [after, List.getElem?_append_left inside]
        exact since.taken
      · intro other level behind found
        rw [after] at found
        -- The newest mark is the usage itself, and all others are as before.
        rcases Nat.lt_or_ge other draft.marks.length with earlier | last
        · rw [List.getElem?_append_left earlier] at found
          exact since.later behind found
        · rw [List.getElem?_append_right last] at found
          have newest := List.mem_singleton.mp (List.mem_of_getElem? found)
          exact newest ▸ since.used
  | release other =>
      rw [after]
      split
      next level found =>
        have least := since.later (behind other List.mem_cons_self) found
        exact ⟨since.taken, Nat.le_min.mpr ⟨since.used, least⟩, since.later⟩
      · exact since

theorem run (since : Since number mark draft) {operations : List Operation}
    (behind : ReleasesFrom number operations) :
    Since number mark (draft.afterAll operations) := by
  induction operations generalizing draft with
  | nil => exact since
  | cons operation rest induction =>
      refine induction (since.step ?_) ?_
      · intro other member
        exact behind other (List.mem_singleton.mp member ▸ List.mem_cons_self)
      · intro other member
        exact behind other (List.mem_cons_of_mem operation member)

private theorem release_used (since : Since number mark draft) :
    (draft.after (.release number)).used = mark := by
  rw [after, since.taken]
  exact Nat.min_eq_right since.used

end Since

/-- Whatever is done after a mark, going back to it restores the usage, unless an
earlier mark was gone back to in between. -/
theorem used_released (draft : Draft) {later : List Operation}
    (behind : ReleasesFrom draft.marks.length later) :
    (draft.afterAll
      (.mark :: later ++ [.release draft.marks.length])).used = draft.used := by
  have since : Since draft.marks.length draft.used
      (draft.afterAll (.mark :: later)) := (Since.taking draft).run behind
  rw [afterAll, List.foldl_append]
  exact since.release_used

end Draft

/-! ## Words -/

private theorem toNat_min (left right : UInt64) :
    (min left right).toNat = min left.toNat right.toNat :=
  (min_apply (f := UInt64.toNat)).symm

structure Counter where
  capacity : UInt64
  used : UInt64
  marks : List UInt64

namespace Counter

def fresh (capacity : UInt64) : Counter where
  capacity := capacity
  used := 0
  marks := []

def remaining (counter : Counter) : UInt64 := counter.capacity - counter.used

def charge? (counter : Counter) (size : UInt64) : Option UInt64 :=
  (checkedAdd? counter.used size).filter (· ≤ counter.capacity)

def after (counter : Counter) : Operation → Counter
  | .charge charge =>
      match counter.charge? charge.size with
      | some used => { counter with used := used }
      | none => counter
  | .mark => { counter with marks := counter.marks ++ [counter.used] }
  | .release number =>
      match counter.marks[number]? with
      | some mark => { counter with used := min counter.used mark }
      | none => counter

def afterAll (counter : Counter) (operations : List Operation) : Counter :=
  operations.foldl after counter

variable {counter : Counter} {draft : Draft}

private theorem charge?_eq_some_iff {size used : UInt64} :
    counter.charge? size = some used ↔
      used.toNat = counter.used.toNat + size.toNat ∧
        used ≤ counter.capacity := by
  rw [charge?, Option.filter_eq_some_iff, checkedAdd?_eq_some_iff,
    decide_eq_true_eq]

private theorem charge?_eq_none_iff {size : UInt64} :
    counter.charge? size = none ↔
      counter.capacity.toNat < counter.used.toNat + size.toNat := by
  constructor
  · intro refused
    apply Nat.lt_of_not_le
    intro fits
    -- A sum within the capacity is a word, since the capacity is one.
    have word := Nat.lt_of_le_of_lt fits counter.capacity.toNat_lt_size
    have paid : counter.charge? size = some (.ofNatLT _ word) := by
      rw [charge?_eq_some_iff, UInt64.le_iff_toNat_le, UInt64.toNat_ofNatLT]
      exact ⟨rfl, fits⟩
    rw [refused] at paid
    cases paid
  · intro exceeds
    apply Option.eq_none_iff_forall_ne_some.mpr
    intro used paid
    rcases charge?_eq_some_iff.mp paid with ⟨sum, fits⟩
    rw [UInt64.le_iff_toNat_le] at fits
    omega

structure Counts (counter : Counter) (draft : Draft) : Prop where
  capacity : counter.capacity.toNat = draft.ledger.budget.capacity
  used : counter.used.toNat = draft.used
  marks : counter.marks.map UInt64.toNat = draft.marks

namespace Counts

theorem fresh (capacity : UInt64) :
    (Counter.fresh capacity).Counts (.fresh capacity) := ⟨rfl, rfl, rfl⟩

private theorem charge?_eq_none_iff (counts : counter.Counts draft)
    {charge : Charge} :
    counter.charge? charge.size = none ↔ draft.Refuses charge := by
  rw [Counter.charge?_eq_none_iff, counts.capacity, counts.used,
    Draft.refuses_iff]

theorem step (counts : counter.Counts draft) (operation : Operation) :
    (counter.after operation).Counts (draft.after operation) := by
  cases operation with
  | charge charge =>
      rw [after]
      cases draft.spends charge with
      | made accepted charged _ marks =>
          split
          next used paid =>
            refine ⟨?_, ?_, ?_⟩
            · rw [charged.capacity]
              exact counts.capacity
            · rw [Draft.used, charged.used, (charge?_eq_some_iff.mp paid).1,
                counts.used]
              rfl
            · rw [marks]
              exact counts.marks
          next refused =>
            exact absurd (counts.charge?_eq_none_iff.mp refused) accepted
      | refused refused _ noted =>
          rw [counts.charge?_eq_none_iff.mpr refused, noted]
          exact ⟨counts.capacity, counts.used, counts.marks⟩
  | mark =>
      refine ⟨counts.capacity, counts.used, ?_⟩
      rw [after, Draft.after, List.map_append, counts.marks, List.map_singleton,
        counts.used]
  | release number =>
      rw [after, Draft.after, ← counts.marks, List.getElem?_map]
      cases counter.marks[number]? with
      | none => exact counts
      | some mark =>
          refine ⟨counts.capacity, ?_, rfl⟩
          dsimp only [Option.map_some]
          rw [toNat_min, counts.used]
          rfl

theorem run (counts : counter.Counts draft) (operations : List Operation) :
    (counter.afterAll operations).Counts (draft.afterAll operations) := by
  induction operations generalizing counter draft with
  | nil => exact counts
  | cons operation rest induction => exact induction (counts.step operation)

private theorem used_le (counts : counter.Counts draft) :
    counter.used ≤ counter.capacity := by
  rw [UInt64.le_iff_toNat_le, counts.used, counts.capacity]
  exact draft.ledger.budget.within

theorem remaining (counts : counter.Counts draft) :
    counter.remaining.toNat = draft.remaining := by
  rw [Counter.remaining, UInt64.toNat_sub_of_le _ _ counts.used_le,
    counts.capacity, counts.used]
  rfl

end Counts

private theorem capacity_after (counter : Counter) (operation : Operation) :
    (counter.after operation).capacity = counter.capacity := by
  cases operation with
  | charge charge =>
      rw [after]
      split <;> rfl
  | mark => rfl
  | release number =>
      rw [after]
      split <;> rfl

private theorem capacity_afterAll (counter : Counter)
    (operations : List Operation) :
    (counter.afterAll operations).capacity = counter.capacity := by
  induction operations generalizing counter with
  | nil => rfl
  | cons operation rest induction =>
      exact (induction _).trans (counter.capacity_after operation)

end Counter

/-! ## Sequences of operations -/

/-- After any operations, the usage is within the capacity and what remains is
their difference, in numbers and in words. A charge is refused exactly if its
sum with the usage, as a number, exceeds the capacity. Then the usage and the
text stay as they are, and otherwise both grow by the charge. A release never
adds to the usage. A mark that is gone back to restores the usage, unless an
earlier one was gone back to since. -/
theorem operations_keep_budget (capacity : UInt64)
    (operations : List Operation) :
    let draft := (Draft.fresh capacity).afterAll operations
    let counter := (Counter.fresh capacity).afterAll operations
    (counter.Counts draft ∧ counter.capacity = capacity) ∧
    (draft.used ≤ capacity.toNat ∧
      draft.used + draft.remaining = capacity.toNat ∧
      counter.remaining.toNat = draft.remaining) ∧
    (∀ charge,
      (draft.Refuses charge ↔
        capacity.toNat < draft.used + charge.size.toNat) ∧
      (counter.charge? charge.size = none ↔ draft.Refuses charge) ∧
      (draft.Refuses charge →
        (draft.after (.charge charge)).used = draft.used ∧
        (draft.after (.charge charge)).text = draft.text) ∧
      (¬ draft.Refuses charge →
        (draft.after (.charge charge)).used =
          draft.used + charge.size.toNat ∧
        (draft.after (.charge charge)).text.toList =
          draft.text.toList ++ charge.letters)) ∧
    (∀ number, (draft.after (.release number)).used ≤ draft.used) ∧
    (∀ later, Draft.ReleasesFrom draft.marks.length later →
      (draft.afterAll
        (.mark :: later ++ [.release draft.marks.length])).used =
          draft.used) := by
  intro draft counter
  have counts : counter.Counts draft := (Counter.Counts.fresh capacity).run _
  have same : counter.capacity = capacity := Counter.capacity_afterAll _ _
  have whole : draft.ledger.budget.capacity = capacity.toNat := by
    rw [← counts.capacity, same]
  refine ⟨⟨counts, same⟩, ⟨?_, ?_, counts.remaining⟩, ?_,
    draft.release_used_le, fun _ => draft.used_released⟩
  · rw [← whole]
    exact draft.ledger.budget.within
  · rw [← whole]
    exact draft.used_add_remaining
  · intro charge
    refine ⟨?_, counts.charge?_eq_none_iff, ?_, Draft.after_accepted⟩
    · rw [Draft.refuses_iff, whole]
    · intro refused
      rw [Draft.after_refused refused]
      exact ⟨rfl, rfl⟩

/-- The second mark is above the usage when it is gone back to, and the charge
that is refused would come to nothing in words that wrap around. -/
theorem operations_keep_budget_stale :
    let draft := (Draft.fresh 18446744073709551615).afterAll
      [.charge (.bytes 5), .mark, .charge (.character 'x'), .mark, .release 0]
    draft.used = 5 ∧ draft.text = "x" ∧
      draft.Refuses (.bytes 18446744073709551611) ∧
      (draft.after (.release 1)).used ≤ 5 ∧
      (draft.afterAll (.mark ::
        [.charge (.bytes 7), .mark, .release 3, .release 2] ++
          [.release 2])).used = 5 := by
  intro draft
  rcases operations_keep_budget 18446744073709551615
    [.charge (.bytes 5), .mark, .charge (.character 'x'), .mark, .release 0]
    with ⟨_, _, charges, releases, restores⟩
  have used : draft.used = 5 := by decide
  refine ⟨used, by decide, ?_, ?_, ?_⟩
  · exact (charges _).1.mpr (by decide)
  · exact used ▸ releases 1
  · refine (restores [.charge (.bytes 7), .mark, .release 3, .release 2] ?_).trans
      used
    intro other member
    have numbers : other = 3 ∨ other = 2 := by simpa using member
    show 2 ≤ other
    omega

end PkgConfig
