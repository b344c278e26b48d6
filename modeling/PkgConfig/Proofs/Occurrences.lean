import PkgConfig.Proofs.Repetition

namespace PkgConfig

/-! Occurrences of an argument. A list says at which of its places an argument is
printed, and when nothing is excluded this can be told from the sequence of
pushes alone: at every place, at the first one or at the last one. -/

/-- Whether the argument at a position counts there. -/
inductive Argument.CountsAt (arguments : List String) (position : Nat)
    (argument : String) : Prop
  | repeatable (plain : isUnique argument = false)
  | first (unique : isUnique argument = true)
      (other : isLibrary argument = false)
      (new : ∀ earlier < position, arguments[earlier]? ≠ some argument)
  | last (unique : isUnique argument = true)
      (library : isLibrary argument = true)
      (final : ∀ later > position, arguments[later]? ≠ some argument)

namespace Argument

private theorem mem_earlier_iff {earlier later : List String}
    {argument : String} : argument ∈ earlier ↔ ∃ position < earlier.length,
      (earlier ++ later)[position]? = some argument := by
  rw [List.mem_iff_getElem?]
  constructor
  · rintro ⟨position, stands⟩
    have within := (List.getElem?_eq_some_iff.mp stands).1
    exact ⟨position, within, by rwa [List.getElem?_append_left within]⟩
  · rintro ⟨position, within, stands⟩
    rw [List.getElem?_append_left within] at stands
    exact ⟨position, stands⟩

private theorem mem_later_iff {earlier later : List String}
    {argument other : String} : argument ∈ later ↔ ∃ position > earlier.length,
      (earlier ++ other :: later)[position]? = some argument := by
  rw [List.mem_iff_getElem?]
  constructor
  · rintro ⟨position, stands⟩
    refine ⟨earlier.length + (position + 1), by omega, ?_⟩
    rw [List.getElem?_append_right (by omega), Nat.add_sub_cancel_left]
    exact stands
  · rintro ⟨position, beyond, stands⟩
    rcases Nat.exists_eq_add_of_lt beyond with ⟨further, rfl⟩
    rw [List.getElem?_append_right (by omega), Nat.add_assoc,
      Nat.add_sub_cancel_left] at stands
    exact ⟨further, stands⟩

section Unique

variable {arguments : List String} {position : Nat} {argument : String}
  (unique : isUnique argument = true)

include unique

private theorem countsAt_first_iff (other : isLibrary argument = false) :
    CountsAt arguments position argument ↔
      ∀ earlier < position, arguments[earlier]? ≠ some argument := by
  constructor
  · intro counts
    cases counts with
    | repeatable plain => exact absurd unique (by simp [plain])
    | first _ _ new => exact new
    | last _ library _ => exact absurd library (by simp [other])
  · exact .first unique other

private theorem countsAt_last_iff (library : isLibrary argument = true) :
    CountsAt arguments position argument ↔
      ∀ later > position, arguments[later]? ≠ some argument := by
  constructor
  · intro counts
    cases counts with
    | repeatable plain => exact absurd unique (by simp [plain])
    | first _ other _ => exact absurd library (by simp [other])
    | last _ _ final => exact final
  · exact .last unique library

private theorem not_lt_of_countsAt {left right : Nat}
    (leftStands : arguments[left]? = some argument)
    (rightStands : arguments[right]? = some argument)
    (leftCounts : CountsAt arguments left argument)
    (rightCounts : CountsAt arguments right argument) : ¬ left < right := by
  intro less
  cases library : isLibrary argument with
  | false =>
      exact (countsAt_first_iff unique library).mp rightCounts left less
        leftStands
  | true =>
      exact (countsAt_last_iff unique library).mp leftCounts right less
        rightStands

end Unique

private theorem counts_iff {earlier later : List String} {argument : String} :
    counts earlier argument later = true ↔
      CountsAt (earlier ++ argument :: later) earlier.length argument := by
  have before := @mem_earlier_iff earlier (argument :: later) argument
  have behind := @mem_later_iff earlier later argument argument
  cases unique : isUnique argument with
  | false => simp [counts, unique, CountsAt.repeatable unique]
  | true =>
      cases library : isLibrary argument with
      | false =>
          rw [countsAt_first_iff unique library]
          simp [counts, unique, library, before]
      | true =>
          rw [countsAt_last_iff unique library]
          simp [counts, unique, library, behind]

end Argument

namespace ArgumentList

/-! ## Printed positions -/

def printedPositions (list : ArgumentList) : List Nat :=
  (list.arguments.toList.zipIdx.filter fun (argument, position) =>
    list.isPrinted argument position).map Prod.snd

private theorem mem_printedPositions_iff {list : ArgumentList}
    {position : Nat} : position ∈ list.printedPositions ↔
      ∃ argument, list.arguments[position]? = some argument ∧
        list.isPrinted argument position = true := by
  simp [printedPositions, List.mem_zipIdx_iff_getElem?]

private theorem ascending_printedPositions (list : ArgumentList) :
    list.printedPositions.Pairwise (· < ·) := by
  have positions : (list.arguments.toList.zipIdx.map Prod.snd).Pairwise
      (· < ·) := by
    rw [List.zipIdx_map_snd]
    exact List.pairwise_lt_range'
  exact positions.sublist (List.filter_sublist.map Prod.snd)

private theorem map_printedPositions (list : ArgumentList) :
    list.printedPositions.map (list.arguments[·]?) =
      list.survivors.map some := by
  rw [printedPositions, survivors, List.map_map, List.map_map]
  apply List.map_congr_left
  intro place listed
  have stands := List.mem_zipIdx_iff_getElem?.mp (List.mem_filter.mp listed).1
  simpa using stands

/-! ## Pushes -/

private theorem ordered_empty : empty.Ordered where
  stands {argument position} placed := by simp [empty] at placed
  stays {argument} excluded := by simp [empty] at excluded
  unique {argument position} placed := by simp [empty] at placed
  placed {argument} _ pushed := by simp [empty] at pushed
  printed {earlier later argument} stands := by simp [empty] at stands

def ofPushes (arguments : List String) : ArgumentList :=
  arguments.foldl push empty

private theorem toList_ofPushes (arguments : List String) :
    (ofPushes arguments).arguments.toList = arguments := by
  rw [ofPushes, (ordered_empty.foldl_push arguments).2.1]
  rfl

private theorem getElem?_ofPushes (arguments : List String) (position : Nat) :
    (ofPushes arguments).arguments[position]? = arguments[position]? := by
  rw [← Array.getElem?_toList, toList_ofPushes]

private theorem isPrinted_ofPushes_iff {arguments : List String}
    {argument : String}
    {position : Nat} (stands : arguments[position]? = some argument) :
    (ofPushes arguments).isPrinted argument position = true ↔
      Argument.CountsAt arguments position argument := by
  rcases ordered_empty.foldl_push arguments with ⟨ordered, whole, included⟩
  rcases List.getElem?_eq_some_iff.mp stands with ⟨within, same⟩
  have split : arguments = arguments.take position ++
      argument :: arguments.drop (position + 1) := by
    rw [← same, List.getElem_cons_drop, List.take_append_drop]
  have front : (arguments.take position).length = position :=
    List.length_take_of_le (Nat.le_of_lt within)
  have printed := ordered.printed (whole.trans split)
  have counts := @Argument.counts_iff (arguments.take position)
    (arguments.drop (position + 1)) argument
  rw [front, included] at printed
  rw [front, ← split] at counts
  rw [ofPushes, printed, ← counts]
  simp [isExcluded, empty]

private theorem mem_printedPositions_ofPushes_iff {arguments : List String}
    {position : Nat} :
    position ∈ (ofPushes arguments).printedPositions ↔
      ∃ argument, arguments[position]? = some argument ∧
        Argument.CountsAt arguments position argument := by
  rw [mem_printedPositions_iff]
  simp only [getElem?_ofPushes]
  exact exists_congr fun argument =>
    and_congr_right fun stands => isPrinted_ofPushes_iff stands

private theorem count_survivors (list : ArgumentList) (argument : String) :
    list.survivors.count argument =
      (list.printedPositions.filter
        (list.arguments[·]? == some argument)).length := by
  have printed := congrArg (List.countP (· == some argument))
    list.map_printedPositions
  rw [List.countP_map, List.countP_map] at printed
  rw [List.count_eq_countP, ← List.countP_eq_length_filter]
  exact printed.symm

private theorem count_survivors_le (arguments : List String) {argument : String}
    (unique : Argument.isUnique argument = true) :
    (ofPushes arguments).survivors.count argument ≤ 1 := by
  rw [count_survivors]
  have ascending := (ofPushes arguments).ascending_printedPositions.sublist
    (List.filter_sublist (p :=
      ((ofPushes arguments).arguments[·]? == some argument)))
  have counts : ∀ position ∈ (ofPushes arguments).printedPositions.filter
      ((ofPushes arguments).arguments[·]? == some argument),
      arguments[position]? = some argument ∧
        Argument.CountsAt arguments position argument := by
    intro position listed
    rcases List.mem_filter.mp listed with ⟨printed, stands⟩
    rw [getElem?_ofPushes, beq_iff_eq] at stands
    rcases mem_printedPositions_ofPushes_iff.mp printed with
      ⟨other, same, counts⟩
    cases stands.symm.trans same
    exact ⟨stands, counts⟩
  generalize (ofPushes arguments).printedPositions.filter _ = positions
    at ascending counts ⊢
  rcases positions with _ | ⟨first, _ | ⟨second, rest⟩⟩
  · exact Nat.zero_le 1
  · exact Nat.le_refl 1
  · have less := List.rel_of_pairwise_cons ascending List.mem_cons_self
    rcases counts first (by simp) with ⟨firstStands, firstCounts⟩
    rcases counts second (by simp) with ⟨secondStands, secondCounts⟩
    exact absurd less (Argument.not_lt_of_countsAt unique firstStands
      secondStands firstCounts secondCounts)

/-- After any pushes onto an empty list an argument is printed at just those of its
places where it counts: at each if it may be repeated, at the first if it is
unique, and at the last if it is a library. So all that was pushed is printed, a
unique argument once, in the order of the places. -/
theorem pushes_printed (arguments : List String) :
    (∃ positions : List Nat,
      positions.Pairwise (· < ·) ∧
      positions.map (arguments[·]?) =
        (ofPushes arguments).survivors.map some ∧
      ∀ position, position ∈ positions ↔
        ∃ argument, arguments[position]? = some argument ∧
          Argument.CountsAt arguments position argument) ∧
    (∀ argument, argument ∈ (ofPushes arguments).survivors ↔
      argument ∈ arguments) ∧
    ∀ argument ∈ arguments, Argument.isUnique argument = true →
      (ofPushes arguments).survivors.count argument = 1 := by
  have survives : ∀ argument,
      argument ∈ (ofPushes arguments).survivors ↔ argument ∈ arguments := by
    intro argument
    rw [ofPushes, ordered_empty.toSettled.mem_survivors_foldl_push]
    simp [empty]
  refine ⟨⟨(ofPushes arguments).printedPositions, ?_, ?_, ?_⟩, survives, ?_⟩
  · exact ascending_printedPositions _
  · rw [← map_printedPositions]
    exact List.map_congr_left fun position _ =>
      (getElem?_ofPushes arguments position).symm
  · exact fun position => mem_printedPositions_ofPushes_iff
  · intro argument pushed unique
    have once := List.count_pos_iff.mpr ((survives argument).mpr pushed)
    exact Nat.le_antisymm (count_survivors_le arguments unique) once

theorem pushes_printed_twice :
    Argument.isUnique "-lx" = true ∧ "-lx" ∈ ["-lx", "-L/a", "-lx"] ∧
      (ofPushes ["-lx", "-L/a", "-lx"]).survivors.count "-lx" = 1 :=
  ⟨by decide, by decide,
    (pushes_printed ["-lx", "-L/a", "-lx"]).2.2 "-lx" (by decide) (by decide)⟩

end ArgumentList

end PkgConfig
