import PkgConfig.Run

namespace PkgConfig

/-! Charges add up. Writing a text piece by piece costs what writing it at once
would cost. -/

theorem Text.byteLength_eq_utf8ByteSize (text : List Char) :
    Text.byteLength text = (String.ofList text).utf8ByteSize := by
  induction text with
  | nil => rfl
  | cons head rest induction =>
      rw [String.ofList_cons, String.utf8ByteSize_append,
        String.utf8ByteSize_singleton, byteLength_cons, induction]

namespace Ledger

structure Charged (before : Ledger) (bytes : Nat) (after : Ledger) : Prop where
  fits : before.used + bytes ≤ before.budget.capacity
  used : after.used = before.used + bytes
  capacity : after.budget.capacity = before.budget.capacity
  events : after.events = before.events

private theorem eq_of_same {left right : Ledger} (used : left.used = right.used)
    (capacity : left.budget.capacity = right.budget.capacity)
    (events : left.events = right.events) : left = right := by
  rcases left with ⟨⟨_, _, _⟩, _⟩
  rcases right with ⟨⟨_, _, _⟩, _⟩
  cases capacity
  cases used
  cases events
  rfl

namespace Charged

theorem nothing (ledger : Ledger) : ledger.Charged 0 ledger :=
  ⟨ledger.budget.within, rfl, rfl, rfl⟩

theorem nothing_iff {before after : Ledger} :
    before.Charged 0 after ↔ after = before := by
  constructor
  · intro charged
    exact eq_of_same charged.used charged.capacity charged.events
  · rintro rfl
    exact nothing after

theorem unique {before left right : Ledger} {bytes : Nat}
    (first : before.Charged bytes left) (second : before.Charged bytes right) :
    left = right := by
  apply eq_of_same
  · rw [first.used, second.used]
  · rw [first.capacity, second.capacity]
  · rw [first.events, second.events]

theorem exists_of_fits {before : Ledger} {bytes : Nat}
    (fits : before.used + bytes ≤ before.budget.capacity) :
    ∃ after, before.Charged bytes after :=
  ⟨⟨⟨before.budget.capacity, before.used + bytes, fits⟩, before.events⟩,
    fits, rfl, rfl, rfl⟩

theorem trans {before between after : Ledger} {first second : Nat}
    (earlier : before.Charged first between)
    (later : between.Charged second after) :
    before.Charged (first + second) after where
  fits := by
    have fits := later.fits
    rw [earlier.used, earlier.capacity] at fits
    omega
  used := by rw [later.used, earlier.used, Nat.add_assoc]
  capacity := later.capacity.trans earlier.capacity
  events := later.events.trans earlier.events

theorem add_iff {before after : Ledger} {first second : Nat} :
    before.Charged (first + second) after ↔
      ∃ between, before.Charged first between ∧
        between.Charged second after := by
  constructor
  · intro charged
    have fits := charged.fits
    have less : before.used + first ≤ before.budget.capacity := by omega
    rcases exists_of_fits less with ⟨between, earlier⟩
    refine ⟨between, earlier, ?_, ?_, ?_, ?_⟩
    · rw [earlier.used, earlier.capacity]
      omega
    · rw [charged.used, earlier.used, Nat.add_assoc]
    · rw [charged.capacity, earlier.capacity]
    · rw [charged.events, earlier.events]
  · rintro ⟨between, earlier, later⟩
    exact earlier.trans later

theorem release_eq {before after : Ledger} {bytes : Nat}
    (charged : before.Charged bytes after) :
    after.release before.used = before := by
  apply eq_of_same
  · have used := charged.used
    show min after.used before.used = before.used
    omega
  · exact charged.capacity
  · exact charged.events

theorem append_iff {before after : Ledger} {first second : List Char} :
    before.Charged (Text.byteLength (first ++ second)) after ↔
      ∃ between, before.Charged (Text.byteLength first) between ∧
        between.Charged (Text.byteLength second) after := by
  rw [Text.byteLength_append]
  exact add_iff

end Charged

end Ledger

namespace Run

theorem charge_eq_ok_iff {bytes : Nat} {before after : Ledger} :
    charge bytes before = .ok () after ↔ before.Charged bytes after := by
  unfold charge Budget.charge?
  by_cases fits : before.budget.used + bytes ≤ before.budget.capacity
  · simp only [fits, dif_pos, EStateM.Result.ok.injEq, true_and]
    have charged : before.Charged bytes
        ⟨⟨before.budget.capacity, before.budget.used + bytes, fits⟩,
          before.events⟩ := ⟨fits, rfl, rfl, rfl⟩
    constructor
    · rintro rfl
      exact charged
    · exact charged.unique
  · simp only [fits, dif_neg, not_false_eq_true, reduceCtorEq, false_iff]
    exact fun charged => fits charged.fits

theorem charge_cases (bytes : Nat) (before : Ledger) :
    (∃ after, charge bytes before = .ok () after ∧
      before.Charged bytes after) ∨
    (before.budget.capacity < before.used + bytes ∧
      charge bytes before = .error .outOfMemory (before.note
        (.exhausted before.used before.budget.capacity bytes))) := by
  by_cases fits : before.used + bytes ≤ before.budget.capacity
  · rcases Ledger.Charged.exists_of_fits fits with ⟨after, charged⟩
    exact .inl ⟨after, charge_eq_ok_iff.mpr charged, charged⟩
  · have refused : before.budget.charge? bytes = none := dif_neg fits
    exact .inr ⟨Nat.lt_of_not_le fits, by rw [charge, refused]⟩

/-- Charging a text character by character comes to charging it at once. -/
theorem chargeEach_eq_ok_iff {text : List Char} {before after : Ledger} :
    chargeEach text before = .ok () after ↔
      before.Charged (Text.byteLength text) after := by
  induction text generalizing before with
  | nil => simp [chargeEach, Ledger.Charged.nothing_iff, eq_comm]
  | cons character rest induction =>
      rw [chargeEach, bind_eq_ok_iff, Text.byteLength_cons,
        Ledger.Charged.add_iff]
      simp only [induction]
      constructor
      · rintro ⟨_, between, first, charged⟩
        exact ⟨between, charge_eq_ok_iff.mp first, charged⟩
      · rintro ⟨between, first, charged⟩
        exact ⟨(), between, charge_eq_ok_iff.mpr first, charged⟩

theorem append_eq_ok_iff {output written : String} {text : List Char}
    {before after : Ledger} :
    append output text before = .ok written after ↔
      written.toList = output.toList ++ text ∧
        before.Charged (Text.byteLength text) after := by
  cases text with
  | nil =>
      simp [append, Ledger.Charged.nothing_iff, String.toList_inj, eq_comm]
  | cons character rest =>
      simp only [append, bind_eq_ok_iff]
      constructor
      · rintro ⟨_, between, charged, finished⟩
        cases finished
        exact ⟨toList_foldl_push _ _, charge_eq_ok_iff.mp charged⟩
      · rintro ⟨stands, charged⟩
        refine ⟨(), after, charge_eq_ok_iff.mpr charged, ?_⟩
        rw [← toList_foldl_push, String.toList_inj] at stands
        rw [stands]
        rfl

theorem append_cases (output : String) (text : List Char) (before : Ledger) :
    (∃ written after, append output text before = .ok written after ∧
      written.toList = output.toList ++ text ∧
      before.Charged (Text.byteLength text) after) ∨
    (before.budget.capacity < before.used + Text.byteLength text ∧
      append output text before = .error .outOfMemory (before.note
        (.exhausted before.used before.budget.capacity
          (Text.byteLength text)))) := by
  cases text with
  | nil => exact .inl ⟨output, before, rfl, by simp, .nothing before⟩
  | cons character rest =>
      rcases charge_cases (Text.byteLength (character :: rest)) before with
        ⟨after, paid, charged⟩ | ⟨exceeds, refused⟩
      · refine .inl ⟨_, after, ?_, toList_foldl_push _ _, charged⟩
        simp only [append, bind, EStateM.bind, paid]
        rfl
      · refine .inr ⟨exceeds, ?_⟩
        simp only [append, bind, EStateM.bind, refused]

theorem append_bind_eq_ok_iff {output : String} {text : List Char}
    {next : String → Run α} {value : α} {before after : Ledger} :
    (append output text >>= next) before = .ok value after ↔
      ∃ between, before.Charged (Text.byteLength text) between ∧
        next (String.ofList (output.toList ++ text)) between =
          .ok value after := by
  simp only [bind_eq_ok_iff, append_eq_ok_iff]
  constructor
  · rintro ⟨written, between, ⟨stands, charged⟩, rest⟩
    refine ⟨between, charged, ?_⟩
    rw [← stands, String.ofList_toList]
    exact rest
  · rintro ⟨between, charged, rest⟩
    exact ⟨_, between, ⟨String.toList_ofList, charged⟩, rest⟩

end Run

end PkgConfig
