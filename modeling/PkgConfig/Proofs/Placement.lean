import Mathlib.Data.List.Induction
import PkgConfig.Proofs.Emission

namespace PkgConfig

/-! Exclusions among pushes. An excluded argument stays out of what is printed
whatever is done to the list afterwards, unless it is an argument whose last
place counts: pushing such a one gives it a place again. -/

/-- Whether a further push moves the argument to a new place. -/
def Argument.moves (argument : String) : Bool :=
  isUnique argument && isLibrary argument

namespace ArgumentList

/-! ## Operations -/

inductive Operation where
  | push (argument : String)
  | exclude (argument : String)
  deriving DecidableEq, Repr

def apply (list : ArgumentList) : Operation → ArgumentList
  | .push argument => list.push argument
  | .exclude argument => list.exclude argument

def applyAll (list : ArgumentList) (operations : List Operation) :
    ArgumentList :=
  operations.foldl apply list

/-- The argument is pushed, and not excluded after that. -/
def PushedLast (argument : String) (operations : List Operation) : Prop :=
  ∃ earlier later, operations = earlier ++ .push argument :: later ∧
    .exclude argument ∉ later

private theorem pushedLast_append_singleton (argument : String)
    (operations : List Operation) (newest : Operation) :
    PushedLast argument (operations ++ [newest]) ↔
      newest = .push argument ∨
        newest ≠ .exclude argument ∧ PushedLast argument operations := by
  constructor
  · rintro ⟨earlier, later, equal, kept⟩
    rcases List.eq_nil_or_concat later with rfl | ⟨later, last, rfl⟩
    · have same := (List.append_inj' equal rfl).2
      exact .inl (List.singleton_inj.mp same)
    · rw [List.concat_eq_append] at equal kept
      rw [← List.cons_append, ← List.append_assoc] at equal
      rcases List.append_inj' equal rfl with ⟨front, same⟩
      cases same
      rw [List.mem_append, not_or, List.mem_singleton] at kept
      exact .inr ⟨Ne.symm kept.2, earlier, later, front, kept.1⟩
  · rintro (rfl | ⟨different, earlier, later, rfl, kept⟩)
    · exact ⟨operations, [], rfl, List.not_mem_nil⟩
    · refine ⟨earlier, later ++ [newest], by simp, ?_⟩
      rw [List.mem_append, not_or, List.mem_singleton]
      exact ⟨kept, Ne.symm different⟩

/-! ## Placements -/

theorem placements_push_excluded {list : ArgumentList} {argument : String}
    (excluded : list.placements[argument]? = some .excluded) :
    (list.push argument).placements[argument]? =
      if Argument.moves argument then some (.position list.size)
      else some .excluded := by
  rw [placements_push, excluded]
  simp [Argument.moves]

private theorem placements_push_moves {list : ArgumentList} {argument : String}
    (moves : Argument.moves argument = true) :
    (list.push argument).placements[argument]? =
      some (.position list.size) := by
  rcases Bool.and_eq_true_iff.mp moves with ⟨unique, library⟩
  rw [placements_push, if_pos ⟨unique, .inr library⟩]

/-! ## Survival -/

theorem mem_survivors_iff {list : ArgumentList} {argument : String} :
    argument ∈ list.survivors ↔
      ∃ position, list.arguments[position]? = some argument ∧
        list.isPrinted argument position = true := by
  simp [survivors, List.mem_zipIdx_iff_getElem?]

def Placed (list : ArgumentList) (argument : String) : Prop :=
  ∃ position, list.placements[argument]? = some (.position position) ∧
    list.arguments[position]? = some argument

namespace Placed

private theorem mem_survivors {list : ArgumentList} {argument : String}
    (placed : list.Placed argument) : argument ∈ list.survivors := by
  rcases placed with ⟨position, place, stands⟩
  apply mem_survivors_iff.mpr
  exact ⟨position, stands, by simp [isPrinted, place]⟩

private theorem isExcluded_eq {list : ArgumentList} {argument : String}
    (placed : list.Placed argument) : list.isExcluded argument = false := by
  rcases placed with ⟨position, place, _⟩
  simp [isExcluded, place]

theorem exclude {list : ArgumentList} {argument other : String}
    (placed : list.Placed argument) (different : other ≠ argument) :
    (list.exclude other).Placed argument := by
  rcases placed with ⟨position, place, stands⟩
  refine ⟨position, ?_, stands⟩
  rw [placements_exclude, if_neg different]
  exact place

theorem push {list : ArgumentList} {argument other : String}
    (placed : list.Placed argument) (different : other ≠ argument) :
    (list.push other).Placed argument := by
  rcases placed with ⟨position, place, stands⟩
  refine ⟨position, ?_, ?_⟩
  · rw [placements_push_of_ne list different]
    exact place
  · have within := (Array.getElem?_eq_some_iff.mp stands).1
    rw [ArgumentList.push, Array.getElem?_push, if_neg (Nat.ne_of_lt within)]
    exact stands

private theorem of_push {list : ArgumentList} {argument : String}
    (moves : Argument.moves argument = true) :
    (list.push argument).Placed argument :=
  ⟨list.size, placements_push_moves moves, Array.getElem?_push_size⟩

private theorem applyAll {list : ArgumentList} {argument : String}
    {operations : List Operation} (moves : Argument.moves argument = true)
    (placed : list.Placed argument)
    (kept : .exclude argument ∉ operations) :
    (list.applyAll operations).Placed argument := by
  induction operations generalizing list with
  | nil => exact placed
  | cons operation rest induction =>
      rcases not_or.mp (mt List.mem_cons.mpr kept) with ⟨different, kept⟩
      apply induction _ kept
      cases operation with
      | push other =>
          by_cases same : other = argument
          · rw [same]
            exact of_push moves
          · exact placed.push same
      | exclude other =>
          apply placed.exclude
          rintro rfl
          exact different rfl

end Placed

private theorem not_mem_survivors_of_excluded {list : ArgumentList}
    {argument : String}
    (excluded : list.placements[argument]? = some .excluded) :
    argument ∉ list.survivors := by
  intro survives
  rcases mem_survivors_iff.mp survives with ⟨position, _, printed⟩
  simp [isPrinted, excluded] at printed

private theorem applyAll_append (list : ArgumentList)
    (earlier later : List Operation) :
    list.applyAll (earlier ++ later) =
      (list.applyAll earlier).applyAll later :=
  List.foldl_append

private theorem placed_of_pushedLast {argument : String}
    {operations : List Operation}
    (list : ArgumentList) (moves : Argument.moves argument = true)
    (pushed : PushedLast argument operations) :
    (list.applyAll operations).Placed argument := by
  rcases pushed with ⟨earlier, later, rfl, kept⟩
  rw [applyAll_append]
  have placed : ((list.applyAll earlier).push argument).Placed argument :=
    .of_push moves
  have still := placed.applyAll moves kept
  exact still

private theorem excluded_of_not_pushedLast {argument : String}
    {operations : List Operation} (list : ArgumentList)
    (unpushed : ¬ (Argument.moves argument = true ∧
      PushedLast argument operations)) :
    ((list.exclude argument).applyAll operations).placements[argument]? =
      some .excluded := by
  induction operations using List.reverseRecOn with
  | nil =>
      have excluded := placements_exclude list argument argument
      rw [if_pos rfl] at excluded
      exact excluded
  | append_singleton operations newest induction =>
      rw [pushedLast_append_singleton] at unpushed
      rw [applyAll_append]
      cases newest with
      | exclude other =>
          rw [applyAll, List.foldl_cons, List.foldl_nil, apply,
            placements_exclude]
          by_cases same : other = argument
          · rw [if_pos same]
          · rw [if_neg same]
            apply induction
            rintro ⟨moves, pushed⟩
            exact unpushed ⟨moves, .inr ⟨by simpa using same, pushed⟩⟩
      | push other =>
          have excluded := induction fun ⟨moves, pushed⟩ =>
            unpushed ⟨moves, .inr ⟨by simp, pushed⟩⟩
          rw [applyAll, List.foldl_cons, List.foldl_nil, apply]
          by_cases same : other = argument
          · rw [same, placements_push_excluded excluded, if_neg]
            exact fun moves => unpushed ⟨moves, .inl (congrArg _ same)⟩
          · rw [placements_push_of_ne _ same]
            exact excluded

/-- Whatever was done before an exclusion and whatever is done later, the
argument stays excluded and is not printed, but for one case: its last place
counts and it was pushed again since its last exclusion. In that case it is
printed. -/
theorem excluded_unless_pushed_last (list : ArgumentList) (argument : String)
    (later : List Operation) :
    (((list.exclude argument).applyAll later).isExcluded argument = true ↔
      ¬ (Argument.moves argument = true ∧ PushedLast argument later)) ∧
    (argument ∈ ((list.exclude argument).applyAll later).survivors ↔
      Argument.moves argument = true ∧ PushedLast argument later) := by
  by_cases again : Argument.moves argument = true ∧ PushedLast argument later
  · have placed :=
      placed_of_pushedLast (list.exclude argument) again.1 again.2
    simp [again, placed.isExcluded_eq, placed.mem_survivors]
  · have excluded := excluded_of_not_pushedLast list again
    have hidden := not_mem_survivors_of_excluded excluded
    simp [again, hidden, isExcluded, excluded]

/-- A library that is excluded, and pushed after that. -/
theorem excluded_library_printed :
    let list := empty.applyAll [.exclude "-lm", .push "-lm"]
    list.isExcluded "-lm" = false ∧ list.survivors = ["-lm"] := by
  cbv

end ArgumentList

end PkgConfig
