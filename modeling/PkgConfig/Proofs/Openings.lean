import PkgConfig.Proofs.Steps

namespace PkgConfig

/-! How often requirement lists are opened. Every argument is read in finitely
many steps with a bounded stack, and all arguments together open the
requirements of a package at most twice, its private ones at most once. -/

/-! ## Runs -/

def Session.ofResult : EStateM.Result Error Session α → Session
  | .ok _ after => after
  | .error _ after => after

namespace Walk

/-- `Runs settings walk before visited opened result`: the steps from `walk` on
go through the states `visited`, open the lists `opened` on the way, and end with
`result`. -/
inductive Runs (settings : Settings) :
    Walk → Session → List Walk → List (Nat × Field) →
      EStateM.Result Error Session Position → Prop
  | finished
      (stepped : step settings walk before = .ok (.finished position) after) :
      Runs settings walk before [walk] [] (.ok position after)
  | failed (stepped : step settings walk before = .error error after) :
      Runs settings walk before [walk] [] (.error error after)
  | continued
      (stepped : step settings walk before = .ok (.continued next) between)
      (opens : Opens walk.below before.resolution.catalogue opened next
        between.resolution.catalogue)
      (rest : Runs settings next between visited later result) :
      Runs settings walk before (walk :: visited) (opened ++ later) result

private theorem stack_length_le (walk : Walk) : walk.stack.length ≤ maxFrames :=
  walk.bounded

theorem exists_runs (settings : Settings) (walk : Walk) (before : Session) :
    ∃ visited opened,
      Runs settings walk before visited opened (run settings walk before) := by
  have outcome := step_outcome settings walk before
  rw [run_eq_step]
  cases stepped : step settings walk before with
  | error error after =>
      simp only [bind, EStateM.bind, stepped]
      exact ⟨_, _, .failed stepped⟩
  | ok progress after =>
      simp only [bind, EStateM.bind, stepped]
      cases progress with
      | finished position => exact ⟨_, _, .finished stepped⟩
      | continued next =>
          rw [stepped] at outcome
          cases outcome with
          | continued _ opens =>
              rcases exists_runs settings next after with
                ⟨visited, later, rest⟩
              exact ⟨_, _, .continued stepped opens rest⟩
termination_by walk.weight
decreasing_by exact step_less stepped

theorem Runs.result_eq {settings : Settings} {walk : Walk} {before : Session}
    {visited : List Walk} {opened : List (Nat × Field)}
    {result : EStateM.Result Error Session Position}
    (runs : Runs settings walk before visited opened result) :
    run settings walk before = result := by
  induction runs with
  | finished stepped =>
      rw [run_eq_step]
      simp only [bind, EStateM.bind, stepped]
      rfl
  | failed stepped =>
      rw [run_eq_step]
      simp only [bind, EStateM.bind, stepped]
  | continued stepped _ _ induction =>
      rw [run_eq_step]
      simp only [bind, EStateM.bind, stepped]
      exact induction

end Walk

namespace Resolve

def conclude :
    EStateM.Result Error Session Position → EStateM.Result Error Session Unit
  | .ok position after => setPosition position after
  | .error error after => .error error after

theorem push_eq_conclude (settings : Settings) (argument : String)
    (before : Session) :
    push settings argument before = conclude (Walk.run settings
      (.start argument before.resolution.position) before) := by
  rw [push]
  cases Walk.run settings (.start argument before.resolution.position) before
    <;> rfl

theorem catalogue_conclude (result : EStateM.Result Error Session Position) :
    (Session.ofResult (conclude result)).resolution.catalogue =
      (Session.ofResult result).resolution.catalogue := by
  cases result <;> rfl

end Resolve

/-! ## Lives -/

namespace Resolution

/-- A resolution that starts empty and is given arguments one after another, each
with the ledger of that time, whether the earlier ones succeeded or not. All
lists that were opened are noted. -/
inductive Life (settings : Settings) :
    List (Ledger × String) → List (Nat × Field) → Resolution → Prop
  | fresh : Life settings [] [] .empty
  | pushed {ledger : Ledger} {argument : String}
      (life : Life settings pushes opened resolution)
      (runs : Walk.Runs settings (.start argument resolution.position)
        ⟨resolution, ledger⟩ visited later result) :
      Life settings (pushes ++ [(ledger, argument)]) (opened ++ later)
        (Session.ofResult
          (Resolve.push settings argument ⟨resolution, ledger⟩)).resolution

private theorem exists_life (settings : Settings)
    (pushes : List (Ledger × String)) :
    ∃ opened resolution, Life settings pushes opened resolution := by
  induction pushes using List.reverseRecOn with
  | nil => exact ⟨[], .empty, .fresh⟩
  | append_singleton pushes last induction =>
      rcases induction with ⟨opened, resolution, life⟩
      rcases last with ⟨ledger, argument⟩
      rcases Walk.exists_runs settings (.start argument resolution.position)
        ⟨resolution, ledger⟩ with ⟨visited, later, runs⟩
      exact ⟨_, _, life.pushed runs⟩

end Resolution

/-! ## Tallies -/

/-- What the openings so far have to do with the marks of a catalogue. A package
that is not exposed yet can be opened again. -/
structure Tally (opened : List (Nat × Field)) (catalogue : Catalogue) :
    Prop where
  known : ∀ id field, (id, field) ∈ opened → id < catalogue.size
  hidden : ∀ id, (catalogue.marksOf id).exposed = false →
    opened.count (id, .requires) ≤ 1
  publicLists : ∀ id, opened.count (id, .requires) ≤ 2
  privateLists : ∀ id, opened.count (id, .requiresPrivate) ≤ 1

private theorem Catalogue.Extends.size_le {before after : Catalogue}
    (extended : after.Extends before) : before.size ≤ after.size := by
  by_contra less
  rcases lt_size_iff.mp (Nat.lt_of_not_le less) with ⟨package, held⟩
  rcases extended _ package held with ⟨marks, kept⟩
  exact absurd (lt_size_iff.mpr ⟨_, kept⟩) (Nat.lt_irrefl _)

theorem Catalogue.Extends.exposed {before after : Catalogue}
    (extended : after.Extends before) {id : Nat}
    (exposed : (before.marksOf id).exposed = true) :
    (after.marksOf id).exposed = true := by
  unfold marksOf at exposed
  split at exposed
  next package held =>
    rcases extended id package held with ⟨marks, kept⟩
    simp [marksOf, kept, Marks.union, exposed]
  · cases exposed

namespace Tally

theorem empty : Tally [] .empty where
  known := by simp
  hidden := by simp
  publicLists := by simp
  privateLists := by simp

theorem extended {opened : List (Nat × Field)} {before after : Catalogue}
    (tally : Tally opened before) (extended : after.Extends before) :
    Tally opened after where
  known id field member :=
    Nat.lt_of_lt_of_le (tally.known id field member) extended.size_le
  hidden id hidden := by
    apply tally.hidden
    cases exposed : (before.marksOf id).exposed with
    | false => rfl
    | true => rw [extended.exposed exposed] at hidden; cases hidden
  publicLists := tally.publicLists
  privateLists := tally.privateLists

private theorem count_size {opened : List (Nat × Field)} {catalogue : Catalogue}
    (tally : Tally opened catalogue) (field : Field) :
    opened.count (catalogue.size, field) = 0 := by
  apply List.count_eq_zero.mpr
  intro member
  exact absurd (tally.known _ field member) (Nat.lt_irrefl _)

theorem again {opened : List (Nat × Field)} {before after : Catalogue}
    {id : Nat} (tally : Tally opened before) (extended : after.Extends before)
    (known : id < before.size)
    (hidden : (before.marksOf id).exposed = false)
    (exposed : (after.marksOf id).exposed = true) :
    Tally (opened ++ [(id, .requires)]) after where
  known other field member := by
    rcases List.mem_append.mp member with earlier | same
    · exact (tally.extended extended).known other field earlier
    · cases List.mem_singleton.mp same
      exact Nat.lt_of_lt_of_le known extended.size_le
  hidden other unexposed := by
    have different : id ≠ other := by
      rintro rfl
      exact absurd (exposed.symm.trans unexposed) (by decide)
    have once := (tally.extended extended).hidden other unexposed
    simpa [List.count_append, List.count_singleton, different] using once
  publicLists other := by
    by_cases same : id = other
    · have once := tally.hidden id hidden
      rw [← same, List.count_append, List.count_singleton_self]
      exact Nat.succ_le_succ once
    · have twice := tally.publicLists other
      simpa [List.count_append, List.count_singleton, same] using twice
  privateLists other := by
    have once := tally.privateLists other
    simpa [List.count_append, List.count_singleton] using once

private theorem count_first_le {opened : List (Nat × Field)}
    {catalogue : Catalogue}
    {id bound : Nat} {field : Field} (tally : Tally opened catalogue)
    (positive : 1 ≤ bound) (within : opened.count (id, field) ≤ bound) :
    (opened ++ [(catalogue.size, Field.requires),
      (catalogue.size, .requiresPrivate)]).count (id, field) ≤ bound := by
  rw [List.count_append]
  by_cases same : catalogue.size = id
  · have distinct : [(id, Field.requires), (id, .requiresPrivate)].Nodup := by
      simp
    have once := List.nodup_iff_count_le_one.mp distinct (id, field)
    rw [← same, tally.count_size, same, Nat.zero_add]
    exact Nat.le_trans once positive
  · simpa [List.count_cons, same] using within

theorem first {opened : List (Nat × Field)} {before after : Catalogue}
    (tally : Tally opened before) (extended : after.Extends before)
    (known : before.size < after.size) :
    Tally (opened ++
      [(before.size, .requires), (before.size, .requiresPrivate)]) after where
  known other field member := by
    rcases List.mem_append.mp member with earlier | same
    · exact (tally.extended extended).known other field earlier
    · rcases List.mem_pair.mp same with same | same
      · cases same
        exact known
      · cases same
        exact known
  hidden other unexposed :=
    tally.count_first_le (Nat.le_refl _)
      ((tally.extended extended).hidden other unexposed)
  publicLists other :=
    tally.count_first_le (by decide) (tally.publicLists other)
  privateLists other :=
    tally.count_first_le (Nat.le_refl _) (tally.privateLists other)

theorem opens {earlier opened : List (Nat × Field)} {below : List Frame}
    {before after : Catalogue} {next : Walk} (tally : Tally earlier before)
    (extended : after.Extends before)
    (opens : Walk.Opens below before opened next after) :
    Tally (earlier ++ opened) after := by
  cases opens with
  | nothing =>
      rw [List.append_nil]
      exact tally.extended extended
  | again held hidden exposed =>
      apply tally.again extended (Catalogue.lt_size_iff.mpr ⟨_, held⟩) _ exposed
      simpa [Catalogue.marksOf, held] using hidden
  | first held =>
      exact tally.first extended (Catalogue.lt_size_iff.mpr ⟨_, held⟩)

end Tally

/-! ## Whole lives -/

theorem Walk.grows_of_step {settings : Settings} {walk : Walk}
    {before : Session} {result : EStateM.Result Error Session Progress}
    (stepped : step settings walk before = result) :
    before.resolution.catalogue.Grows
      (Session.ofResult result).resolution.catalogue := by
  have outcome := step_outcome settings walk before
  rw [stepped] at outcome
  cases outcome with
  | finished => exact .refl
  | continued grown => exact grown
  | failed grown => exact grown

namespace Walk.Runs

variable {settings : Settings} {walk : Walk} {before : Session}
  {visited : List Walk} {opened : List (Nat × Field)}
  {result : EStateM.Result Error Session Position}

theorem grows (runs : Runs settings walk before visited opened result) :
    before.resolution.catalogue.Grows
      (Session.ofResult result).resolution.catalogue := by
  induction runs with
  | finished stepped => exact grows_of_step stepped
  | failed stepped => exact grows_of_step stepped
  | continued stepped _ _ induction =>
      exact (grows_of_step stepped).trans induction

private theorem tally {earlier : List (Nat × Field)}
    (runs : Runs settings walk before visited opened result)
    (tally : Tally earlier before.resolution.catalogue) :
    Tally (earlier ++ opened)
      (Session.ofResult result).resolution.catalogue := by
  induction runs generalizing earlier with
  | finished stepped =>
      rw [List.append_nil]
      exact tally.extended (grows_of_step stepped).extended
  | failed stepped =>
      rw [List.append_nil]
      exact tally.extended (grows_of_step stepped).extended
  | continued stepped opens _ induction =>
      have extended := (grows_of_step stepped).extended
      rw [← List.append_assoc]
      exact induction (tally.opens extended opens)

end Walk.Runs

namespace Resolution.Life

variable {settings : Settings} {pushes : List (Ledger × String)}
  {opened : List (Nat × Field)} {resolution : Resolution}

theorem grows (life : Life settings pushes opened resolution) :
    Catalogue.empty.Grows resolution.catalogue := by
  induction life with
  | fresh => exact .refl
  | pushed _ runs induction =>
      rw [Resolve.push_eq_conclude, Resolve.catalogue_conclude,
        runs.result_eq]
      exact induction.trans runs.grows

private theorem tally (life : Life settings pushes opened resolution) :
    Tally opened resolution.catalogue := by
  induction life with
  | fresh => exact .empty
  | pushed _ runs induction =>
      rw [Resolve.push_eq_conclude, Resolve.catalogue_conclude,
        runs.result_eq]
      exact runs.tally induction

end Resolution.Life

/-- Resolving an argument comes to an end from any state, with at most 64 lists
on the stack all the way. Over the whole life of a resolution the requirements of
each package are opened at most twice and its private ones at most once. -/
theorem openings_bounded (settings : Settings) :
    (∀ argument session, ∃ visited opened result,
      Walk.Runs settings (.start argument session.resolution.position) session
        visited opened result ∧
      Resolve.push settings argument session = Resolve.conclude result ∧
      ∀ walk ∈ visited, walk.stack.length ≤ 64) ∧
    (∀ pushes, ∃ opened resolution,
      Resolution.Life settings pushes opened resolution) ∧
    ∀ pushes opened resolution,
      Resolution.Life settings pushes opened resolution →
      resolution.catalogue.realnames.Nodup ∧
      ∀ id, opened.count (id, .requires) ≤ 2 ∧
        opened.count (id, .requiresPrivate) ≤ 1 := by
  refine ⟨?_, Resolution.exists_life settings, ?_⟩
  · intro argument session
    rcases Walk.exists_runs settings
      (.start argument session.resolution.position) session with
      ⟨visited, opened, runs⟩
    exact ⟨visited, opened, _, runs, Resolve.push_eq_conclude _ _ _,
      fun walk _ => walk.stack_length_le⟩
  · intro pushes opened resolution life
    refine ⟨life.grows.nodup List.nodup_nil, fun id => ⟨?_, ?_⟩⟩
    · exact life.tally.publicLists id
    · exact life.tally.privateLists id

end PkgConfig
