import PkgConfig.Proofs.Survivors

namespace PkgConfig

/-! Repeated arguments. Whether an argument is printed depends on nothing but
the arguments in front of it and those behind it, so what is printed can be told
from the arguments alone. -/

/-- Whether an argument counts where it stands: if it is unique, the first of its
places does, and the last one of a library. -/
def Argument.counts (earlier : List String) (argument : String)
    (later : List String) : Bool :=
  !isUnique argument ||
    if isLibrary argument then !later.contains argument
    else !earlier.contains argument

namespace ArgumentList

/-! ## Placements -/

theorem toList_push (list : ArgumentList) (argument : String) :
    (list.push argument).arguments.toList =
      list.arguments.toList ++ [argument] :=
  Array.toList_push

private theorem isExcluded_iff {list : ArgumentList} {argument : String} :
    list.isExcluded argument = true ↔
      list.placements[argument]? = some .excluded := by
  simp [isExcluded]

structure Ordered (list : ArgumentList) : Prop extends Settled list where
  unique {argument : String} {position : Nat}
    (placed : list.placements[argument]? = some (.position position)) :
    Argument.isUnique argument = true
  placed {argument : String} (unique : Argument.isUnique argument = true)
    (pushed : argument ∈ list.arguments) :
    list.placements[argument]? ≠ none
  printed {earlier later : List String} {argument : String}
    (stands : list.arguments.toList = earlier ++ argument :: later) :
    list.isPrinted argument earlier.length =
      (!list.isExcluded argument && Argument.counts earlier argument later)

namespace Ordered

variable {list : ArgumentList} (ordered : list.Ordered)

include ordered

private theorem isExcluded_push (argument other : String) :
    (list.push argument).isExcluded other = list.isExcluded other := by
  rw [Bool.eq_iff_iff, isExcluded_iff, isExcluded_iff]
  exact ordered.excluded_push_iff argument other

private theorem position_lt {argument : String} {position : Nat}
    (placed : list.placements[argument]? = some (.position position)) :
    position < list.size :=
  (Array.getElem?_eq_some_iff.mp (ordered.stands placed)).1

private theorem printed_last (argument : String) :
    (list.push argument).isPrinted argument list.size =
      (!list.isExcluded argument &&
        Argument.counts list.arguments.toList argument []) := by
  rw [isPrinted, isExcluded, placements_push, Argument.counts]
  by_cases unique : Argument.isUnique argument = true
  · have again := ordered.placed unique
    cases found : list.placements[argument]? with
    | none =>
        have new : argument ∉ list.arguments := fun member =>
          again member found
        simp [unique, new]
    | some place =>
        by_cases library : Argument.isLibrary argument = true
        · have included : place ≠ .excluded := by
            rintro rfl
            have still := ordered.stays found
            simp [Argument.moves, unique, library] at still
          simp [unique, library, included]
        · cases place with
          | excluded => simp [unique, library]
          | position position =>
              have member := Array.mem_of_getElem? (ordered.stands found)
              have less := ordered.position_lt found
              simp [unique, library, member, Nat.ne_of_lt less]
  · cases found : list.placements[argument]? with
    | none => simp [unique]
    | some place =>
        cases place with
        | excluded => simp [unique]
        | position position => exact absurd (ordered.unique found) unique

private theorem printed_again {earlier later : List String} {argument : String}
    (stands : list.arguments.toList = earlier ++ argument :: later) :
    (list.push argument).isPrinted argument earlier.length =
      (!list.isExcluded argument &&
        Argument.counts earlier argument (later ++ [argument])) := by
  have before := ordered.printed stands
  have member : argument ∈ list.arguments := by
    rw [← Array.mem_toList_iff, stands]
    simp
  have inside : earlier.length ≠ list.size := by
    have length := congrArg List.length stands
    simp only [Array.length_toList, List.length_append, List.length_cons]
      at length
    simp only [size]
    omega
  rw [Argument.counts] at before ⊢
  rw [isPrinted, placements_push]
  by_cases unique : Argument.isUnique argument = true
  · have again := ordered.placed unique member
    by_cases library : Argument.isLibrary argument = true
    · simp [unique, library, Ne.symm inside]
    · simpa [isPrinted, unique, library, again] using before
  · simpa [isPrinted, unique] using before

theorem push (argument : String) : (list.push argument).Ordered where
  toSettled := ordered.toSettled.push argument
  unique {other position} place := by
    by_cases same : argument = other
    · subst same
      rw [placements_push] at place
      split at place
      next new => exact new.1
      · exact ordered.unique place
    · rw [placements_push_of_ne list same] at place
      exact ordered.unique place
  placed {other} unique pushed := by
    by_cases same : argument = other
    · subst same
      rw [placements_push]
      split
      · exact nofun
      next old =>
        intro unplaced
        exact old ⟨unique, .inl unplaced⟩
    · rw [placements_push_of_ne list same]
      apply ordered.placed unique
      exact (Array.mem_push.mp pushed).resolve_right (Ne.symm same)
  printed {earlier later other} stands := by
    rw [ordered.isExcluded_push, toList_push] at *
    rcases List.eq_nil_or_concat later with rfl | ⟨middle, last, rfl⟩
    · rcases List.append_inj' stands rfl with ⟨rfl, same⟩
      cases same
      rw [Array.length_toList]
      exact ordered.printed_last argument
    · rw [List.concat_eq_append, ← List.cons_append, ← List.append_assoc]
        at stands
      rcases List.append_inj' stands rfl with ⟨whole, same⟩
      cases same
      rw [List.concat_eq_append]
      by_cases same : argument = other
      · subst same
        exact ordered.printed_again whole
      · rw [isPrinted_push_of_ne list same, ordered.printed whole]
        simp [Argument.counts, Ne.symm same]

end Ordered

/-! ## Survivors -/

/-- The arguments that count among those included, with the earlier ones in
front of them. -/
def counting (included : String → Bool) (earlier : List String) :
    List String → List String
  | [] => []
  | argument :: later =>
      let rest := counting included (earlier ++ [argument]) later
      if included argument && Argument.counts earlier argument later then
        argument :: rest
      else rest

example : counting (· != "-L/usr/lib") []
    ["-DA", "-lx", "raw", "-L/usr/lib", "-DA", "raw", "-ly", "-lx"] =
      ["-DA", "raw", "raw", "-ly", "-lx"] := by decide

theorem Ordered.survivors_eq {list : ArgumentList} (ordered : list.Ordered) :
    list.survivors =
      counting (!list.isExcluded ·) [] list.arguments.toList := by
  have behind : ∀ earlier later, list.arguments.toList = earlier ++ later →
      ((later.zipIdx earlier.length).filter fun place =>
          list.isPrinted place.1 place.2).map Prod.fst =
        counting (!list.isExcluded ·) earlier later := by
    intro earlier later whole
    induction later generalizing earlier with
    | nil => rfl
    | cons argument later induction =>
        have rest := induction (earlier ++ [argument]) (by simpa using whole)
        rw [List.length_append, List.length_singleton] at rest
        rw [List.zipIdx_cons, List.filter_cons, apply_ite (List.map Prod.fst),
          counting, ← ordered.printed whole, ← rest]
        rfl
  exact behind [] _ rfl

namespace Ordered

variable {list : ArgumentList}

theorem foldl_push (ordered : list.Ordered) (arguments : List String) :
    (arguments.foldl ArgumentList.push list).Ordered ∧
      (arguments.foldl ArgumentList.push list).arguments.toList =
        list.arguments.toList ++ arguments ∧
      ∀ other, (arguments.foldl ArgumentList.push list).isExcluded other =
        list.isExcluded other := by
  induction arguments generalizing list with
  | nil => exact ⟨ordered, (List.append_nil _).symm, fun _ => rfl⟩
  | cons argument rest induction =>
      rcases induction (ordered.push argument) with ⟨later, whole, excluded⟩
      refine ⟨later, ?_, fun other => ?_⟩
      · rw [List.foldl_cons, whole, toList_push, List.append_assoc]
        rfl
      · rw [List.foldl_cons, excluded, ordered.isExcluded_push]

theorem survivors_foldl_push (ordered : list.Ordered)
    (empty : list.arguments = #[]) (arguments : List String) :
    (arguments.foldl ArgumentList.push list).survivors =
      counting (!list.isExcluded ·) [] arguments := by
  rcases ordered.foldl_push arguments with ⟨filled, whole, excluded⟩
  rw [filled.survivors_eq, whole, empty]
  simp only [excluded, List.nil_append]

end Ordered

theorem counting_filter (included accepts : String → Bool)
    (earlier later : List String) :
    counting included (earlier.filter accepts) (later.filter accepts) =
      (counting included earlier later).filter accepts := by
  induction later generalizing earlier with
  | nil => rfl
  | cons argument later induction =>
      have rest := induction (earlier ++ [argument])
      rw [List.filter_append] at rest
      cases accepted : accepts argument with
      | false =>
          rw [List.filter_cons_of_neg (by simp [accepted])] at *
          rw [List.filter_nil, List.append_nil] at rest
          rw [rest, counting]
          split
          · rw [List.filter_cons_of_neg (by simp [accepted])]
          · rfl
      | true =>
          have alike : Argument.counts (earlier.filter accepts) argument
              (later.filter accepts) =
                Argument.counts earlier argument later := by
            simp [Argument.counts, List.mem_filter, accepted]
          rw [List.filter_cons_of_pos accepted] at *
          rw [List.filter_nil] at rest
          rw [counting, counting, alike, rest]
          split
          · rw [List.filter_cons_of_pos accepted]
          · rfl

end ArgumentList

/-! ## Collected arguments -/

namespace FlagClass

private theorem ordered_seed (settings : Settings) (flagClass : FlagClass) :
    (flagClass.seed settings).Ordered where
  toSettled := flagClass.settled_seed settings
  unique {argument position} placed := by
    rw [placements_seed] at placed
    split at placed <;> cases placed
  placed {argument} _ pushed := by
    simp [arguments_seed] at pushed
  printed {earlier later argument} stands := by
    simp [arguments_seed] at stands

theorem survivors_of_collect {settings : Settings} {flagClass : FlagClass}
    {catalogue : Catalogue} {filter : Filter} {list : ArgumentList}
    {before after : Ledger}
    (collected : flagClass.collect settings catalogue filter before =
      .ok list after) :
    list.survivors = ArgumentList.counting
      (!(flagClass.seed settings).isExcluded ·) []
      ((catalogue.packages.flatMap fun package =>
        (flagClass.fields settings package).flatMap package.words).filter
          filter.accepts) := by
  rw [(collect_eq_ok collected).list_eq,
    (flagClass.ordered_seed settings).survivors_foldl_push
      (arguments_seed settings flagClass), List.filter_flatMap]
  rfl

end FlagClass

end PkgConfig
