import PkgConfig.Proofs.Substitution

namespace PkgConfig.Expansion.Machine

/-! The steps of an expansion. Whatever variables refer to, the steps come to an
end, and all the way the stack and the output stay within their bounds. -/

/-! ## Runs -/

/-- `Runs values path machine before visited result`: the steps from `machine` on
go through the states `visited` and end with `result`. -/
inductive Runs (values : Values) (path : String) :
    Machine → Ledger → List Machine → EStateM.Result Error Ledger String → Prop
  | finished (done : machine.fragments = []) :
      Runs values path machine before [machine] (.ok machine.output before)
  | failed (pending : machine.fragments ≠ [])
      (stepped : step values path machine before = .error error after) :
      Runs values path machine before [machine] (.error error after)
  | continued (pending : machine.fragments ≠ [])
      (stepped : step values path machine before = .ok next between)
      (rest : Runs values path next between visited result) :
      Runs values path machine before (machine :: visited) result

theorem exists_runs (values : Values) (path : String) (machine : Machine)
    (before : Ledger) :
    ∃ visited,
      Runs values path machine before visited (run values path machine before)
    := by
  by_cases done : machine.fragments = []
  · rw [run, dif_pos done]
    exact ⟨_, .finished done⟩
  · rw [run_eq_step values path done]
    cases stepped : step values path machine before with
    | error error after =>
        simp only [bind, EStateM.bind, stepped]
        exact ⟨_, .failed done stepped⟩
    | ok next between =>
        simp only [bind, EStateM.bind, stepped]
        rcases exists_runs values path next between with ⟨visited, rest⟩
        exact ⟨_, .continued done stepped rest⟩
termination_by machine.weight
decreasing_by exact step_less done stepped

/-! ## Bounds -/

theorem fragments_length_le (machine : Machine) :
    machine.fragments.length ≤ maxFragments :=
  machine.height_eq ▸ machine.bounded

private theorem step_charged {values : Values} {path : String}
    {machine next : Machine} {before after : Ledger}
    (stepped : step values path machine before = .ok next after) :
    ∃ written, next.output.toList = machine.output.toList ++ written ∧
      before.Charged (Text.byteLength written) after := by
  rcases machine with ⟨fragments, height, output, counted, bounded⟩
  cases fragments with
  | nil =>
      cases stepped
      exact ⟨[], (List.append_nil _).symm, .nothing before⟩
  | cons text below =>
      cases cut : Cut.ofText text with
      | literal =>
          simp only [step, cut, Run.append_bind_eq_ok_iff] at stepped
          rcases stepped with ⟨between, charged, finished⟩
          cases finished
          exact ⟨text, String.toList_ofList, charged⟩
      | dollar front rest =>
          simp only [step, cut, Run.append_bind_eq_ok_iff] at stepped
          rcases stepped with ⟨between, charged, finished⟩
          cases finished
          exact ⟨front, String.toList_ofList, charged⟩
      | reference front name rest =>
          simp only [step, cut] at stepped
          split at stepped
          · rcases Run.append_bind_eq_ok_iff.mp stepped with
              ⟨between, charged, finished⟩
            cases bound : values.find? name with
            | none =>
                simp only [bound] at finished
                cases finished
            | some value =>
                simp only [bound] at finished
                cases finished
                exact ⟨front, String.toList_ofList, charged⟩
          · cases stepped

/-- All that has been written at any time fits in the budget of the start. -/
theorem Runs.output_fits {values : Values} {path : String}
    {machine : Machine} {before : Ledger} {visited : List Machine}
    {result : EStateM.Result Error Ledger String}
    (runs : Runs values path machine before visited result) :
    ∀ state ∈ visited,
      Text.byteLength state.output.toList ≤
        Text.byteLength machine.output.toList + before.budget.remaining := by
  induction runs with
  | finished => simp
  | failed => simp
  | @continued machine before next between visited result pending stepped rest
      induction =>
      rcases step_charged stepped with ⟨written, stands, charged⟩
      have longer := congrArg Text.byteLength stands
      have fits := charged.fits
      have used := charged.used
      have capacity := charged.capacity
      simp only [Text.byteLength_append, Ledger.used] at longer fits used
      simp only [List.forall_mem_cons, Budget.remaining] at induction ⊢
      refine ⟨Nat.le_add_right _ _, fun state listed => ?_⟩
      have later := induction state listed
      omega

theorem Runs.exists_output {values : Values} {path : String}
    {machine : Machine} {before after : Ledger} {visited : List Machine}
    {written : String}
    (runs : Runs values path machine before visited (.ok written after)) :
    ∃ state ∈ visited, state.output = written := by
  generalize ended : EStateM.Result.ok written after = result at runs
  induction runs with
  | finished =>
      cases ended
      exact ⟨_, List.mem_singleton_self _, rfl⟩
  | failed => cases ended
  | continued _ _ _ induction =>
      rcases induction ended with ⟨state, listed, same⟩
      exact ⟨state, List.mem_cons_of_mem _ listed, same⟩

end PkgConfig.Expansion.Machine
