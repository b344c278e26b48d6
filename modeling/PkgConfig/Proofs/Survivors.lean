import PkgConfig.Proofs.Placement

namespace PkgConfig

/-! Which arguments are printed at all, wherever they stand. Pushing never loses
an argument: one place of it is printed, unless it was excluded before. -/

namespace ArgumentList

/-- Places are only noted where their argument stands, and what is excluded is
not moved by pushing it. -/
structure Settled (list : ArgumentList) : Prop where
  stands {argument : String} {position : Nat}
    (placed : list.placements[argument]? = some (.position position)) :
    list.arguments[position]? = some argument
  stays {argument : String}
    (excluded : list.placements[argument]? = some .excluded) :
    Argument.moves argument = false

private theorem placements_push_self (list : ArgumentList) (argument : String) :
    (list.push argument).placements[argument]? =
        list.placements[argument]? ∨
      (list.push argument).placements[argument]? =
        some (.position list.size) := by
  rw [placements_push]
  split
  · exact .inr rfl
  · exact .inl rfl

namespace Settled

variable {list : ArgumentList} (settled : list.Settled)

include settled

theorem mem_survivors_iff {argument : String} :
    argument ∈ list.survivors ↔
      argument ∈ list.arguments ∧
        list.placements[argument]? ≠ some .excluded := by
  rw [ArgumentList.mem_survivors_iff]
  constructor
  · rintro ⟨position, stands, printed⟩
    refine ⟨Array.mem_of_getElem? stands, ?_⟩
    intro excluded
    simp [isPrinted, excluded] at printed
  · rintro ⟨member, included⟩
    cases placed : list.placements[argument]? with
    | none =>
        rcases Array.mem_iff_getElem?.mp member with ⟨position, stands⟩
        exact ⟨position, stands, by simp [isPrinted, placed]⟩
    | some place =>
        cases place with
        | excluded => exact absurd placed included
        | position position =>
            exact ⟨position, settled.stands placed, by simp [isPrinted, placed]⟩

theorem excluded_push_iff (argument other : String) :
    (list.push argument).placements[other]? = some .excluded ↔
      list.placements[other]? = some .excluded := by
  by_cases same : argument = other
  · subst same
    constructor
    · intro excluded
      rcases list.placements_push_self argument with kept | moved
      · rw [← kept]
        exact excluded
      · rw [moved] at excluded
        cases excluded
    · intro excluded
      rw [placements_push_excluded excluded, settled.stays excluded]
      rfl
  · rw [placements_push_of_ne list same]

theorem push (argument : String) : (list.push argument).Settled where
  stands {other position} placed := by
    have kept : ∀ {position}, list.placements[other]? =
        some (.position position) →
        (list.push argument).arguments[position]? = some other := by
      intro position placed
      have stands := settled.stands placed
      have within := (Array.getElem?_eq_some_iff.mp stands).1
      rw [ArgumentList.push, Array.getElem?_push, if_neg (Nat.ne_of_lt within)]
      exact stands
    by_cases same : argument = other
    · subst same
      rcases list.placements_push_self argument with still | moved
      · exact kept (still ▸ placed)
      · cases moved.symm.trans placed
        exact Array.getElem?_push_size
    · rw [placements_push_of_ne list same] at placed
      exact kept placed
  stays {other} excluded :=
    settled.stays ((settled.excluded_push_iff argument other).mp excluded)

theorem mem_survivors_foldl_push (arguments : List String)
    (argument : String) :
    argument ∈ (arguments.foldl ArgumentList.push list).survivors ↔
      (argument ∈ list.arguments ∨ argument ∈ arguments) ∧
        list.placements[argument]? ≠ some .excluded := by
  induction arguments generalizing list with
  | nil => simpa using settled.mem_survivors_iff
  | cons first rest induction =>
      rw [List.foldl_cons, induction (settled.push first), ne_eq,
        settled.excluded_push_iff]
      have pushed : argument ∈ (list.push first).arguments ↔
          argument ∈ list.arguments ∨ argument = first := by
        rw [ArgumentList.push, Array.mem_push]
      rw [pushed, List.mem_cons, or_assoc]

end Settled

end ArgumentList

/-! ## Collected arguments -/

namespace FlagClass

theorem settled_seed (settings : Settings) (flagClass : FlagClass) :
    (flagClass.seed settings).Settled where
  stands {argument position} placed := by
    rw [placements_seed] at placed
    split at placed <;> cases placed
  stays {argument} excluded := by
    rw [placements_seed] at excluded
    split at excluded
    next listed =>
      have flag := hasFlag_of_mem_excludedFlags listed
      have other : Argument.isLibrary argument = false := by
        rcases flagClass.directoryLetter_eq with letter | letter <;>
        · rw [letter] at flag
          unfold Argument.hasFlag at flag
          unfold Argument.isLibrary Argument.hasFlag
          split at flag
          · simp_all
          · cases flag
      rw [Argument.moves, other, Bool.and_false]
    · cases excluded

/-- The arguments that are printed are those of the packages, but for the flags
of system directories. -/
theorem mem_survivors_of_collect {settings : Settings} {flagClass : FlagClass}
    {catalogue : Catalogue} {filter : Filter} {list : ArgumentList}
    {before after : Ledger}
    (collected : flagClass.collect settings catalogue filter before =
      .ok list after) (argument : String) :
    argument ∈ list.survivors ↔
      (∃ package ∈ catalogue.packages,
        ∃ field ∈ flagClass.fields settings package,
          argument.toList ∈ package.splitWords field) ∧
        filter.accepts argument = true ∧
        argument ∉ flagClass.excludedFlags settings := by
  have collects := collect_eq_ok collected
  rw [collects.list_eq,
    (flagClass.settled_seed settings).mem_survivors_foldl_push,
    arguments_seed, placements_seed]
  have words : ∀ package ∈ catalogue.packages,
      argument ∈ flagClass.arguments settings filter package ↔
        (∃ field ∈ flagClass.fields settings package,
          argument.toList ∈ package.splitWords field) ∧
          filter.accepts argument = true := by
    intro package listed
    rw [arguments, List.mem_filter, List.mem_flatMap]
    refine and_congr_left fun _ => exists_congr fun field => ?_
    refine and_congr_right fun visited => ?_
    rw [(collects.splits package listed field visited).words_eq]
    constructor
    · intro member
      rcases List.mem_map.mp member with ⟨word, split, rfl⟩
      rw [String.toList_ofList]
      exact split
    · intro split
      exact List.mem_map.mpr ⟨_, split, String.ofList_toList⟩
  constructor
  · rintro ⟨pushed, included⟩
    rcases pushed with nothing | pushed
    · simp at nothing
    · rcases List.mem_flatMap.mp pushed with ⟨package, listed, member⟩
      rcases (words package listed).mp member with ⟨visited, accepted⟩
      refine ⟨⟨package, listed, visited⟩, accepted, ?_⟩
      intro excluded
      exact included (if_pos excluded)
  · rintro ⟨⟨package, listed, visited⟩, accepted, included⟩
    refine ⟨.inr (List.mem_flatMap.mpr ⟨package, listed,
      (words package listed).mpr ⟨visited, accepted⟩⟩), ?_⟩
    rw [if_neg included]
    exact nofun

end FlagClass

end PkgConfig
