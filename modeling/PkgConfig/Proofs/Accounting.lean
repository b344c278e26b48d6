import PkgConfig.Proofs.ArgumentSplitting
import PkgConfig.Proofs.Emission
import PkgConfig.Proofs.LoadingCharges
import PkgConfig.Proofs.Openings

namespace PkgConfig

/-! Where the usage of a run comes from. Every package is paid for once, when it
is loaded, however often it is met; and every list of flags is paid for with the
words that are read for it. -/

namespace Catalogue

def unmarked (catalogue : Catalogue) : List Package :=
  catalogue.packages.map Package.unmarked

@[simp] theorem unmarked_mark (catalogue : Catalogue) (id : Nat)
    (marks : Marks) : (catalogue.mark id marks).unmarked = catalogue.unmarked :=
  map_packages_mark (fun _ _ => rfl) catalogue id marks

@[simp] theorem unmarked_mergeMarks (catalogue : Catalogue) (id : Nat)
    (marks : Marks) :
    (catalogue.mergeMarks id marks).unmarked = catalogue.unmarked := by
  rw [unmarked, packages_mergeMarks]
  exact unmarked_mark catalogue id marks

@[simp] theorem unmarked_insert (catalogue : Catalogue) (package : Package) :
    (catalogue.insert package).unmarked =
      catalogue.unmarked ++ [package.unmarked] := by
  simp [unmarked, insert]

end Catalogue

/-! ## Steps -/

/-- What a step costs: nothing, or what it costs to find a package that is new
in the catalogue. -/
inductive Session.Pays (settings : Settings) (before after : Session) : Prop
  | nothing
      (packages : after.resolution.catalogue.unmarked =
        before.resolution.catalogue.unmarked)
      (used : after.ledger.used = before.ledger.used)
  | package {token : String} {package : Package} {between : Ledger}
      (found : Package.find settings token before.ledger = .ok package between)
      (packages : after.resolution.catalogue.unmarked =
        before.resolution.catalogue.unmarked ++ [package.unmarked])
      (used : after.ledger.used = between.used)

namespace Walk

variable {settings : Settings} {frame : Frame} {below : List Frame}
  {bounded : below.length < maxFrames} {token : String} {progress : Progress}
  {before after : Session}

private theorem pays_of_revisit {id : Nat} {package : Package}
    (visited : revisit settings frame below bounded token id package before =
      .ok progress after) : before.Pays settings after := by
  rw [revisit, Resolve.catalogue_bind] at visited
  split at visited
  · rcases Resolve.bind_eq_ok_iff.mp visited with ⟨_, _, noted, visited⟩
    cases noted
    rcases Resolve.bind_eq_ok_iff.mp visited with ⟨_, _, promoted, visited⟩
    cases promoted
    split at visited
    · split at visited
      · cases visited
        exact .nothing (by simp) rfl
      · cases visited
    · cases visited
      exact .nothing (by simp) rfl
  · cases visited
    exact .nothing (by simp) rfl

private theorem pays_of_discover
    (visited : discover settings frame below bounded token before =
      .ok progress after) : before.Pays settings after := by
  rcases Resolve.bind_eq_ok_iff.mp visited with ⟨package, found, find, visited⟩
  unfold Resolve.ofRun at find
  split at find
  next loaded =>
    cases find
    rw [Resolve.catalogue_bind] at visited
    rcases Resolve.bind_eq_ok_iff.mp visited with ⟨_, _, inserted, visited⟩
    cases inserted
    split at visited
    · split at visited
      · cases visited
        exact .package loaded (by simp) rfl
      · cases visited
    · cases visited
      exact .package loaded (by simp) rfl
  · cases find

private theorem pays_of_visit
    (visited : visit settings frame below bounded token before =
      .ok progress after) : before.Pays settings after := by
  rw [visit, Resolve.catalogue_bind] at visited
  cases found : before.resolution.catalogue.find? (Location.realname token) with
  | none =>
      simp only [found] at visited
      exact pays_of_discover visited
  | some id =>
      rcases Catalogue.package?_of_find? found with ⟨package, held, _⟩
      simp only [found, held] at visited
      exact pays_of_revisit visited

private theorem pays_of_step {walk : Walk}
    (stepped : step settings walk before = .ok progress after) :
    before.Pays settings after := by
  rcases walk with ⟨⟨tokens, position, depth, marks⟩, below, bounded⟩
  cases tokens with
  | nil =>
      cases below with
      | nil =>
          cases stepped
          exact .nothing rfl rfl
      | cons frame below =>
          rw [step, closeList] at stepped
          cases pending : position.pending with
          | none =>
              simp only [pending] at stepped
              cases stepped
              exact .nothing rfl rfl
          | some comparator =>
              simp only [pending] at stepped
              cases stepped
  | cons token tokens =>
      rw [step] at stepped
      cases pending : position.pending with
      | some comparator =>
          simp only [pending] at stepped
          rcases Resolve.bind_eq_ok_iff.mp stepped with ⟨_, _, checked, finished⟩
          rcases RecursiveWalk.checkVersion_eq_ok checked with ⟨rfl, _⟩
          cases finished
          exact .nothing rfl rfl
      | none =>
          cases operator : Comparator.ofToken? token with
          | none =>
              simp only [pending, operator] at stepped
              exact pays_of_visit stepped
          | some comparator =>
              simp only [pending, operator] at stepped
              split at stepped
              · cases stepped
              · cases stepped
                exact .nothing rfl rfl

end Walk

/-! ## Runs -/

def Session.Accounted (settings : Settings) (start : Nat)
    (session : Session) : Prop :=
  ∃ origins, List.Forall₂ (Package.ComesFrom settings)
      session.resolution.catalogue.unmarked origins ∧
    session.ledger.used = start + (origins.map Package.Origin.bytes).sum +
      (session.resolution.catalogue.unmarked.map Package.fieldBytes).sum

namespace Session.Accounted

variable {settings : Settings} {start : Nat} {before after : Session}

private theorem pays (accounted : before.Accounted settings start)
    (pays : before.Pays settings after) : after.Accounted settings start := by
  rcases accounted with ⟨origins, come, total⟩
  cases pays with
  | nothing packages used =>
      refine ⟨origins, ?_, ?_⟩
      · rw [packages]
        exact come
      · rw [packages, used]
        exact total
  | package found packages used =>
      rcases Package.find_used found with ⟨origin, comes, same, spent⟩
      refine ⟨origins ++ [origin], ?_, ?_⟩
      · rw [packages, same]
        exact List.rel_append come (.cons comes .nil)
      · rw [used, spent, total, packages, same]
        simp only [List.map_append, List.sum_append, List.map_cons,
          List.map_nil, List.sum_singleton]
        omega

theorem run {walk : Walk} {visited : List Walk} {opened : List (Nat × Field)}
    {position : Position} (accounted : before.Accounted settings start)
    (runs : Walk.Runs settings walk before visited opened
      (.ok position after)) : after.Accounted settings start := by
  generalize same : EStateM.Result.ok position after = result at runs
  induction runs with
  | finished stepped =>
      cases same
      exact accounted.pays (Walk.pays_of_step stepped)
  | failed stepped => cases same
  | continued stepped _ _ induction =>
      exact induction (accounted.pays (Walk.pays_of_step stepped)) same

theorem push {argument : String} (accounted : before.Accounted settings start)
    (pushed : Resolve.push settings argument before = .ok () after) :
    after.Accounted settings start := by
  rcases Walk.exists_runs settings (.start argument before.resolution.position)
    before with ⟨visited, opened, runs⟩
  rw [Resolve.push_eq_conclude] at pushed
  generalize Walk.run settings (.start argument before.resolution.position)
    before = result at runs pushed
  cases result with
  | ok position between =>
      cases pushed
      have ended := accounted.run runs
      exact ended
  | error error between => cases pushed

theorem pushAll {arguments : List String}
    (accounted : before.Accounted settings start)
    (pushed : Resolve.pushAll settings arguments before = .ok () after) :
    after.Accounted settings start := by
  induction arguments generalizing before with
  | nil =>
      cases pushed
      exact accounted
  | cons argument rest induction =>
      rcases Resolve.bind_eq_ok_iff.mp pushed with ⟨_, between, first, pushed⟩
      exact induction (accounted.push first) pushed

end Session.Accounted

/-- After arguments that could be resolved, each package has been charged once:
the file that it is from, and its expanded fields. Collecting flags then adds
the flags of the system directories that are left out, encoded and escaped, and
every word of every field that is gone through. -/
theorem usage_accounted {settings : Settings} {arguments : List String}
    {capacity : Nat} {session : Session}
    (pushed : Resolve.pushAll settings arguments
      ⟨.empty, .fresh capacity⟩ = .ok () session) :
    (∃ origins,
      List.Forall₂ (Package.ComesFrom settings)
        session.resolution.catalogue.packages origins ∧
      session.resolution.catalogue.realnames.Nodup ∧
      session.ledger.used = (origins.map Package.Origin.bytes).sum +
        (session.resolution.catalogue.packages.map Package.fieldBytes).sum) ∧
    ∀ (flagClass : FlagClass) (filter : Filter) (before : Ledger)
      (list : ArgumentList) (after : Ledger),
      flagClass.collect settings session.resolution.catalogue filter before =
        .ok list after →
      after.used = before.used +
        ((flagClass.excludedDirectories settings).map
          (ArgumentList.systemFlagBytes flagClass.directoryLetter)).sum +
        (session.resolution.catalogue.packages.map
          (flagClass.wordBytes settings)).sum := by
  constructor
  · have fresh : Session.Accounted settings 0 ⟨.empty, .fresh capacity⟩ :=
      ⟨[], .nil, rfl⟩
    rcases fresh.pushAll pushed with ⟨origins, come, total⟩
    refine ⟨origins, ?_, ?_, ?_⟩
    · exact (List.forall₂_map_left_iff.mp come).imp fun _ _ =>
        Package.ComesFrom.of_unmarked
    · exact (reads_of_pushAll pushed).nodup List.nodup_nil
    · rw [total, Nat.zero_add, Catalogue.unmarked, List.map_map]
      rfl
  · intro flagClass filter before list after collected
    exact (FlagClass.collect_eq_ok collected).used_eq

/-! ## A library that is met three times -/

namespace MetAgain

def settings : Settings :=
  FileTable.settings .none
    [FileTable.metadataFile "x" "Libs: -lx\n",
      FileTable.metadataFile "y" "Requires.private: x\n"]

def outcome : EStateM.Result Error Session Unit →
    Option (List String × Nat × Option Nat)
  | .ok () session =>
      let added :=
        match FlagClass.libs.collect settings session.resolution.catalogue
          .includeDirs session.ledger with
        | .ok _ after => some (after.used - session.ledger.used)
        | .error .. => none
      some (session.resolution.catalogue.realnames, session.ledger.used, added)
  | .error .. => none

theorem outcome_pushAll :
    outcome (Resolve.pushAll settings ["y x x"] ⟨.empty, .fresh 200⟩) =
      some (["y", "x"], 90, some 35) := by
  rw [Resolve.pushAll_singleton]
  cbv

theorem usage_accounted_promoted :
    ∃ session origins list after,
      Resolve.pushAll settings ["y x x"] ⟨.empty, .fresh 200⟩ =
        .ok () session ∧
      List.Forall₂ (Package.ComesFrom settings)
        session.resolution.catalogue.packages origins ∧
      90 = (origins.map Package.Origin.bytes).sum +
        (session.resolution.catalogue.packages.map Package.fieldBytes).sum ∧
      FlagClass.libs.collect settings session.resolution.catalogue
        .includeDirs session.ledger = .ok list after ∧
      35 = ((FlagClass.libs.excludedDirectories settings).map
          (ArgumentList.systemFlagBytes 'L')).sum +
        (session.resolution.catalogue.packages.map
          (FlagClass.libs.wordBytes settings)).sum := by
  have seen := outcome_pushAll
  cases pushed : Resolve.pushAll settings ["y x x"] ⟨.empty, .fresh 200⟩ with
  | error error session =>
      rw [pushed] at seen
      cases seen
  | ok _ session =>
      rcases usage_accounted pushed with ⟨⟨origins, come, _, total⟩, adds⟩
      simp only [pushed, outcome, Option.some.injEq, Prod.mk.injEq] at seen
      rcases seen with ⟨_, used, added⟩
      cases collected : FlagClass.libs.collect settings
          session.resolution.catalogue .includeDirs session.ledger with
      | error error after =>
          simp only [collected] at added
          cases added
      | ok list after =>
          simp only [collected, Option.some.injEq] at added
          have more := adds .libs .includeDirs session.ledger list after
            collected
          rw [show FlagClass.libs.directoryLetter = 'L' from rfl] at more
          refine ⟨session, origins, list, after, rfl, come, ?_, collected, ?_⟩
          · rw [← used, total]
          · omega

end MetAgain

end PkgConfig
