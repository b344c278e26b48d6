import PkgConfig.Proofs.NamedPackages
import PkgConfig.Proofs.Openings
import PkgConfig.Proofs.SmallerBudget

namespace PkgConfig

/-! Earlier directories shadow later ones. A search ends at the first file that
is there, so a run that succeeds does not depend on directories behind those it
has searched, nor on files that it has not asked for. -/

/-! ## Searches -/

def Loader.asked (loader : Loader) : List String → List String
  | [] => []
  | path :: rest =>
      match loader.load path with
      | .absent => path :: loader.asked rest
      | _ => [path]

def Settings.probes (settings : Settings) (token : String) : List String :=
  settings.loader.asked (settings.pathsOf token)

def Settings.extended (settings : Settings) (directories : List String)
    (loader : Loader) : Settings :=
  { settings with
    searchPath := ⟨settings.searchPath.directories ++ directories⟩
    loader := loader }

private def Settings.SearchesAlike (settings : Settings) (loader : Loader)
    (token : String) : Prop :=
  token ≠ Builtin.name ∧
    settings.loader.AgreeOn (settings.probes token) loader

private theorem Loader.agreeOn_asked_cons {left right : Loader} {path : String}
    {rest : List String}
    (agree : left.AgreeOn (left.asked (path :: rest)) right) :
    left.load path = right.load path ∧
      (left.load path = .absent → left.AgreeOn (left.asked rest) right) := by
  unfold asked at agree
  cases read : left.load path with
  | absent =>
      simp only [read] at agree
      rcases List.forall_mem_cons.mp agree with ⟨here, agree⟩
      exact ⟨read.symm.trans here, fun _ => agree⟩
  | contents text =>
      simp only [read] at agree
      exact ⟨read.symm.trans (agree path (List.mem_singleton_self path)), nofun⟩
  | failed cause =>
      simp only [read] at agree
      exact ⟨read.symm.trans (agree path (List.mem_singleton_self path)), nofun⟩

namespace Package

variable {settings : Settings} {directories : List String} {loader : Loader}

private theorem read?_extended {path : String}
    (agree : settings.loader.load path = loader.load path) (name : String) :
    read? (settings.extended directories loader) name path =
      read? settings name path := by
  simp only [read?, Settings.extended, agree]

private theorem absent_of_read? {name path : String} {before after : Ledger}
    (read : read? settings name path before = .ok none after) :
    settings.loader.load path = .absent := by
  cases loaded : settings.loader.load path with
  | absent => rfl
  | failed cause =>
      simp only [read?, loaded] at read
      cases read
  | contents text =>
      simp only [read?, loaded] at read
      rcases Run.bind_eq_ok_iff.mp read with ⟨_, _, _, finished⟩
      cases finished

private theorem locateAmong?_extended {token : String}
    {candidates : List String}
    (more : List String) {located : Located} {before after : Ledger}
    (agree : settings.loader.AgreeOn (settings.loader.asked candidates) loader)
    (found : locateAmong? settings token candidates before =
      .ok (some located) after) :
    locateAmong? (settings.extended directories loader) token
      (candidates ++ more) before = .ok (some located) after := by
  induction candidates generalizing before with
  | nil => cases found
  | cons candidate rest induction =>
      rcases Loader.agreeOn_asked_cons agree with ⟨here, behind⟩
      rcases Run.bind_eq_ok_iff.mp found with ⟨_, noted, note, found⟩
      rcases Run.bind_eq_ok_iff.mp found with ⟨source, between, read, found⟩
      refine Run.bind_eq_ok_iff.mpr ⟨_, noted, note, Run.bind_eq_ok_iff.mpr
        ⟨source, between, (congrFun (read?_extended here _) _).trans read, ?_⟩⟩
      cases source with
      | some source => exact found
      | none => exact induction (behind (absent_of_read? read)) found

private theorem locateByName?_extended {token : String} {located : Located}
    {before after : Ledger} (searched : token ≠ Builtin.name)
    (agree : settings.loader.AgreeOn
      (settings.loader.asked (settings.searchPath.candidates token)) loader)
    (found : locateByName? settings token before = .ok (some located) after) :
    locateByName? (settings.extended directories loader) token before =
      .ok (some located) after := by
  have candidates : (settings.extended directories loader).searchPath.candidates
      token = settings.searchPath.candidates token ++
        directories.map (Location.metadataFile · token) := List.map_append
  unfold locateByName? at found ⊢
  simp only [searched, if_false, candidates] at found ⊢
  exact locateAmong?_extended _ agree found

private theorem locate?_extended {token : String} {located : Located}
    {before after : Ledger} (alike : settings.SearchesAlike loader token)
    (found : locate? settings token before = .ok (some located) after) :
    locate? (settings.extended directories loader) token before =
      .ok (some located) after := by
  rcases alike with ⟨searched, agree⟩
  unfold Settings.probes Settings.pathsOf at agree
  unfold locate? at found ⊢
  cases file : Location.isMetadataFile token with
  | false =>
      simp only [file, Bool.false_eq_true, if_false] at agree found ⊢
      exact locateByName?_extended searched agree found
  | true =>
      simp only [file, if_true] at agree found ⊢
      rcases Loader.agreeOn_asked_cons agree with ⟨here, behind⟩
      rcases Run.bind_eq_ok_iff.mp found with ⟨_, noted, note, found⟩
      rcases Run.bind_eq_ok_iff.mp found with ⟨source, between, read, found⟩
      refine Run.bind_eq_ok_iff.mpr ⟨_, noted, note, Run.bind_eq_ok_iff.mpr
        ⟨source, between, (congrFun (read?_extended here _) _).trans read, ?_⟩⟩
      cases source with
      | some source => exact found
      | none =>
          exact locateByName?_extended searched
            (behind (absent_of_read? read)) found

private theorem find_extended {token : String} {package : Package}
    {before after : Ledger} (alike : settings.SearchesAlike loader token)
    (found : find settings token before = .ok package after) :
    find (settings.extended directories loader) token before =
      .ok package after := by
  rcases Run.bind_eq_ok_iff.mp found with ⟨located, between, locate, made⟩
  cases located with
  | none => cases made
  | some located =>
      exact Run.bind_eq_ok_iff.mpr
        ⟨some located, between, locate?_extended alike locate, made⟩

end Package

/-! ## What is looked for -/

namespace Walk

structure Sought (walk : Walk) (catalogue : Catalogue) (token : String) :
    Prop where
  next : walk.frame.tokens.head? = some token
  settled : walk.frame.position.pending = none
  names : Comparator.ofToken? token = none
  absent : catalogue.find? (Location.realname token) = none

/-- At some time the walk looks for this token. -/
inductive Seeks (settings : Settings) (token : String) :
    Walk → Session → Prop
  | here (sought : walk.Sought before.resolution.catalogue token) :
      Seeks settings token walk before
  | later
      (stepped : step settings walk before = .ok (.continued next) between)
      (seeks : Seeks settings token next between) :
      Seeks settings token walk before

end Walk

inductive Resolve.Seeks (settings : Settings) (token : String) :
    List String → Session → Prop
  | here
      (seeks : Walk.Seeks settings token
        (.start argument before.resolution.position) before) :
      Seeks settings token (argument :: rest) before
  | later (pushed : Resolve.push settings argument before = .ok () between)
      (seeks : Seeks settings token rest between) :
      Seeks settings token (argument :: rest) before

/-! ## Runs -/

section

variable {settings : Settings} {directories : List String} {loader : Loader}

namespace Resolve

private theorem ofRun_eq_ok_iff {run : Run α} {value : α}
    {before after : Session} : ofRun run before = .ok value after ↔
      run before.ledger = .ok value after.ledger ∧
        after.resolution = before.resolution := by
  rcases after with ⟨resolution, ledger⟩
  unfold ofRun
  cases run before.ledger with
  | ok value ledger => simp [eq_comm, and_assoc, and_comm]
  | error error ledger => simp

end Resolve

namespace Walk

private theorem discover_extended {frame : Frame} {below : List Frame}
    {bounded : below.length < maxFrames} {token : String} {progress : Progress}
    {before after : Session} (alike : settings.SearchesAlike loader token)
    (visited : discover settings frame below bounded token before =
      .ok progress after) :
    discover (settings.extended directories loader) frame below bounded token
      before = .ok progress after := by
  rcases Resolve.bind_eq_ok_iff.mp visited with
    ⟨package, between, find, visited⟩
  rcases Resolve.ofRun_eq_ok_iff.mp find with ⟨found, same⟩
  exact Resolve.bind_eq_ok_iff.mpr ⟨package, between,
    Resolve.ofRun_eq_ok_iff.mpr ⟨Package.find_extended alike found, same⟩,
    visited⟩

private theorem step_extended {walk : Walk} {progress : Progress}
    {before after : Session}
    (alike : ∀ token, walk.Sought before.resolution.catalogue token →
      settings.SearchesAlike loader token)
    (stepped : step settings walk before = .ok progress after) :
    step (settings.extended directories loader) walk before =
      .ok progress after := by
  rcases walk with ⟨⟨tokens, position, depth, marks⟩, below, bounded⟩
  cases tokens with
  | nil => cases below <;> exact stepped
  | cons token tokens =>
      cases pending : position.pending with
      | some comparator =>
          simp only [step, pending] at stepped ⊢
          exact stepped
      | none =>
          cases operator : Comparator.ofToken? token with
          | some comparator =>
              simp only [step, pending, operator] at stepped ⊢
              exact stepped
          | none =>
              simp only [step, pending, operator, visit,
                Resolve.catalogue_bind] at stepped ⊢
              cases found : before.resolution.catalogue.find?
                  (Location.realname token) with
              | some id =>
                  simp only [found] at stepped ⊢
                  exact stepped
              | none =>
                  simp only [found] at stepped ⊢
                  exact discover_extended
                    (alike token ⟨rfl, pending, operator, found⟩) stepped

private theorem run_extended {walk : Walk} {position : Position}
    {before after : Session}
    (alike : ∀ token, Seeks settings token walk before →
      settings.SearchesAlike loader token)
    (ran : run settings walk before = .ok position after) :
    run (settings.extended directories loader) walk before =
      .ok position after := by
  rcases exists_runs settings walk before with ⟨visited, opened, runs⟩
  rw [ran] at runs
  generalize same : EStateM.Result.ok position after = result at runs
  induction runs with
  | finished stepped =>
      rw [run_eq_step]
      cases same
      exact Resolve.bind_eq_ok_iff.mpr ⟨_, _,
        step_extended (fun token sought => alike token (.here sought)) stepped,
        rfl⟩
  | failed stepped => cases same
  | continued stepped _ runs induction =>
      rw [run_eq_step]
      subst same
      have later := induction
        (fun token seeks => alike token (.later stepped seeks))
        runs.result_eq rfl
      exact Resolve.bind_eq_ok_iff.mpr ⟨_, _,
        step_extended (fun token sought => alike token (.here sought)) stepped,
        later⟩

end Walk

namespace Resolve

private theorem push_eq_ok_iff {argument : String} {before after : Session} :
    push settings argument before = .ok () after ↔
      ∃ position between,
        Walk.run settings (.start argument before.resolution.position) before =
          .ok position between ∧
        setPosition position between = .ok () after := by
  rw [push]
  cases Walk.run settings (.start argument before.resolution.position) before
    with
  | ok position between => simp
  | error error between => simp

private theorem push_extended {argument : String} {before after : Session}
    (alike : ∀ token, Walk.Seeks settings token
      (.start argument before.resolution.position) before →
      settings.SearchesAlike loader token)
    (pushed : push settings argument before = .ok () after) :
    push (settings.extended directories loader) argument before =
      .ok () after := by
  rcases push_eq_ok_iff.mp pushed with ⟨position, between, ran, finished⟩
  exact push_eq_ok_iff.mpr
    ⟨position, between, Walk.run_extended alike ran, finished⟩

private theorem pushAll_extended {arguments : List String}
    {before after : Session}
    (alike : ∀ token, Seeks settings token arguments before →
      settings.SearchesAlike loader token)
    (pushed : pushAll settings arguments before = .ok () after) :
    pushAll (settings.extended directories loader) arguments before =
      .ok () after := by
  induction arguments generalizing before with
  | nil => exact pushed
  | cons argument rest induction =>
      rcases bind_eq_ok_iff.mp pushed with ⟨_, between, first, pushed⟩
      have later := induction
        (fun token seeks => alike token (.later first seeks)) pushed
      exact bind_eq_ok_iff.mpr ⟨_, between,
        push_extended (fun token seeks => alike token (.here seeks)) first,
        later⟩

end Resolve

end

/-! ## Journals

All that a run asks for stands in its journal, and all that it looks for is in
the catalogue in the end. -/

def Event.path? : Event → Option String
  | .consulted path | .tried path => some path
  | _ => none

def Ledger.paths (ledger : Ledger) : List String :=
  ledger.events.filterMap Event.path?

private theorem Steady.mem_paths {σ : Type} [Budgeted σ]
    {computation : EStateM Error σ α} {value : α} {before after : σ} {path : String} (steady : Steady computation)
    (ran : computation before = .ok value after)
    (asked : path ∈ (Budgeted.ledger before).paths) :
    path ∈ (Budgeted.ledger after).paths := by
  have kept := steady.keeps before
  rw [ran] at kept
  exact (kept.filterMap Event.path?).subset asked

private theorem Loader.mem_asked_cons_iff {loader : Loader}
    {path candidate : String} {rest : List String} :
    path ∈ loader.asked (candidate :: rest) ↔
      path = candidate ∨
        loader.load candidate = .absent ∧ path ∈ loader.asked rest := by
  cases loaded : loader.load candidate <;> simp [asked, loaded]

namespace Package

variable {settings : Settings} {token : String} {before after : Ledger}

private theorem asked_of_read? {name candidate : String} {rest : List String}
    {source : Option String} {between : Ledger}
    (asked : candidate ∈ before.paths)
    (read : read? settings name candidate before = .ok source between)
    (kept : ∀ path ∈ between.paths, path ∈ after.paths)
    (behind : source = none →
      ∀ path ∈ settings.loader.asked rest, path ∈ after.paths) :
    ∀ path ∈ settings.loader.asked (candidate :: rest),
      path ∈ after.paths := by
  intro path member
  rcases Loader.mem_asked_cons_iff.mp member with rfl | ⟨absent, member⟩
  · exact kept _ ((Steady.loading.read? settings _ _).mem_paths read asked)
  · simp only [read?, absent] at read
    cases read
    exact behind rfl path member

private theorem mem_paths_note {path : String} {event : Event}
    (about : event.path? = some path) (ledger : Ledger) :
    path ∈ (ledger.note event).paths :=
  List.mem_filterMap.mpr ⟨event, List.mem_cons_self, about⟩

private theorem asked_of_locateAmong? {candidates : List String}
    {located : Option Located}
    (found : locateAmong? settings token candidates before =
      .ok located after) :
    ∀ path ∈ settings.loader.asked candidates, path ∈ after.paths := by
  induction candidates generalizing before with
  | nil => simp [Loader.asked]
  | cons candidate rest induction =>
      rcases Run.bind_eq_ok_iff.mp found with ⟨_, noted, note, found⟩
      cases note
      rcases Run.bind_eq_ok_iff.mp found with ⟨source, between, read, found⟩
      apply asked_of_read? (mem_paths_note rfl before) read
      · cases source with
        | some source =>
            cases found
            exact fun _ => id
        | none =>
            intro path
            exact (Steady.loading.locateAmong? settings _ _).mem_paths found
      · rintro rfl
        exact induction found

private theorem asked_of_locateByName? {located : Option Located}
    (searched : token ≠ Builtin.name)
    (found : locateByName? settings token before = .ok located after) :
    ∀ path ∈ settings.loader.asked (settings.searchPath.candidates token),
      path ∈ after.paths := by
  unfold locateByName? at found
  simp only [searched, if_false] at found
  exact asked_of_locateAmong? found

private theorem asked_of_locate? {located : Option Located}
    (searched : token ≠ Builtin.name)
    (found : locate? settings token before = .ok located after) :
    ∀ path ∈ settings.probes token, path ∈ after.paths := by
  unfold Settings.probes Settings.pathsOf
  unfold locate? at found
  cases file : Location.isMetadataFile token with
  | false =>
      simp only [file, Bool.false_eq_true, if_false] at found ⊢
      exact asked_of_locateByName? searched found
  | true =>
      simp only [file, if_true] at found ⊢
      rcases Run.bind_eq_ok_iff.mp found with ⟨_, noted, note, found⟩
      cases note
      rcases Run.bind_eq_ok_iff.mp found with ⟨source, between, read, found⟩
      apply asked_of_read? (mem_paths_note rfl before) read
      · cases source with
        | some source =>
            cases found
            exact fun _ => id
        | none =>
            intro path
            exact (Steady.loading.locateByName? settings _).mem_paths found
      · rintro rfl
        exact asked_of_locateByName? searched found

private theorem asked_of_find {package : Package}
    (searched : token ≠ Builtin.name)
    (found : find settings token before = .ok package after) :
    ∀ path ∈ settings.probes token, path ∈ after.paths := by
  rcases Run.bind_eq_ok_iff.mp found with ⟨located, between, locate, made⟩
  cases located with
  | none => cases made
  | some located =>
      intro path member
      exact (Steady.loading.ofSource settings _ _ _).mem_paths made
        (asked_of_locate? searched locate path member)

end Package

structure Session.Searched (settings : Settings) (token : String)
    (session : Session) : Prop where
  listed : Location.realname token ∈ session.resolution.catalogue.realnames
  asked : token ≠ Builtin.name →
    ∀ path ∈ settings.probes token, path ∈ session.ledger.paths

section

variable {settings : Settings} {token : String} {before after : Session}

namespace Walk

private theorem discover_searched {frame : Frame} {below : List Frame}
    {bounded : below.length < maxFrames} {progress : Progress}
    (visited : discover settings frame below bounded token before =
      .ok progress after) : after.Searched settings token := by
  rcases Resolve.bind_eq_ok_iff.mp visited with
    ⟨package, between, find, visited⟩
  rcases Resolve.ofRun_eq_ok_iff.mp find with ⟨found, _⟩
  have loads : Package.Loads settings token package := ⟨_, _, found⟩
  have listed : ∀ marks, Location.realname token ∈
      (between.resolution.catalogue.enrol package marks).realnames := by
    simp [Catalogue.realnames_enrol, loads.realname_eq.1]
  have asked := fun searched => Package.asked_of_find searched found
  rw [Resolve.catalogue_bind] at visited
  rcases Resolve.bind_eq_ok_iff.mp visited with ⟨_, _, inserted, visited⟩
  cases inserted
  split at visited
  · split at visited
    · cases visited
      exact ⟨listed _, asked⟩
    · cases visited
  · cases visited
    exact ⟨listed _, asked⟩

private theorem Sought.searched {walk : Walk} {progress : Progress}
    (sought : walk.Sought before.resolution.catalogue token)
    (stepped : step settings walk before = .ok progress after) :
    after.Searched settings token := by
  rcases walk with ⟨⟨tokens, position, depth, marks⟩, below, bounded⟩
  rcases sought with ⟨next, settled, names, absent⟩
  cases tokens with
  | nil => cases next
  | cons first rest =>
      cases next
      simp only at settled
      simp only [step, settled, names, visit, Resolve.catalogue_bind, absent]
        at stepped
      exact discover_searched stepped

end Walk

namespace Session.Searched

theorem step {walk : Walk} {progress : Walk.Progress}
    (searched : before.Searched settings token)
    (stepped : Walk.step settings walk before = .ok progress after) :
    after.Searched settings token where
  listed := (Walk.grows_of_step stepped).extended.mem_realnames searched.listed
  asked other path probed :=
    ((Steady.reading settings).step walk).mem_paths stepped
      (searched.asked other path probed)

theorem run {walk : Walk} {position : Position}
    (searched : before.Searched settings token)
    (ran : Walk.run settings walk before = .ok position after) :
    after.Searched settings token := by
  rcases Walk.exists_runs settings walk before with ⟨visited, opened, runs⟩
  rw [ran] at runs
  generalize same : EStateM.Result.ok position after = result at runs
  induction runs with
  | finished stepped =>
      cases same
      exact searched.step stepped
  | failed stepped => cases same
  | continued stepped _ runs induction =>
      subst same
      exact induction (searched.step stepped) runs.result_eq rfl

theorem pushAll {arguments : List String}
    (searched : before.Searched settings token)
    (pushed : Resolve.pushAll settings arguments before = .ok () after) :
    after.Searched settings token where
  listed := (reads_of_pushAll pushed).extended.mem_realnames searched.listed
  asked other path probed :=
    (Steady.pushAll settings arguments).mem_paths pushed
      (searched.asked other path probed)

end Session.Searched

private theorem Walk.Seeks.searched {walk : Walk} {position : Position}
    (seeks : Seeks settings token walk before)
    (ran : run settings walk before = .ok position after) :
    after.Searched settings token := by
  rw [run_eq_step] at ran
  induction seeks with
  | here sought =>
      rcases Resolve.bind_eq_ok_iff.mp ran with
        ⟨progress, between, stepped, ran⟩
      have searched := sought.searched stepped
      cases progress with
      | finished position =>
          cases ran
          exact searched
      | continued next => exact searched.run ran
  | later stepped seeks induction =>
      rcases Resolve.bind_eq_ok_iff.mp ran with ⟨progress, between, again, ran⟩
      cases stepped.symm.trans again
      exact induction (run_eq_step settings _ ▸ ran)

/-- In the end, whatever the arguments made a run look for has been found, and
what it asked for on the way has been noted. -/
theorem Resolve.Seeks.searched {arguments : List String}
    (seeks : Seeks settings token arguments before)
    (pushed : pushAll settings arguments before = .ok () after) :
    after.Searched settings token := by
  induction seeks with
  | here seeks =>
      rcases bind_eq_ok_iff.mp pushed with ⟨_, between, first, pushed⟩
      rcases push_eq_ok_iff.mp first with ⟨position, ended, ran, finished⟩
      have searched := seeks.searched ran
      cases finished
      have moved : (ended.movedTo position).Searched settings token :=
        ⟨searched.listed, searched.asked⟩
      exact moved.pushAll pushed
  | later first seeks induction =>
      rcases bind_eq_ok_iff.mp pushed with ⟨_, between, again, pushed⟩
      cases first.symm.trans again
      exact induction pushed

end

/-! ## Command lines -/

section

variable {settings : Settings} {directories : List String} {loader : Loader}

namespace Catalogue

private theorem resolve_eq_ok_iff {arguments : List String}
    {catalogue : Catalogue} {ledger after : Ledger} :
    resolve settings arguments ledger = .ok catalogue after ↔
      ∃ session,
        Resolve.pushAll settings arguments ⟨.empty, ledger⟩ = .ok () session ∧
        session.resolution.finish = .ok catalogue ∧ session.ledger = after := by
  unfold resolve
  cases Resolve.pushAll settings arguments ⟨.empty, ledger⟩ with
  | error error session => simp
  | ok _ session =>
      cases finished : session.resolution.finish with
      | error error => simp [finished]
      | ok result => simp [finished]

/-- A command line that can be resolved comes to the same catalogue and the same
ledger with more directories behind the others, whatever is in them, and with
any change to files that have not been asked for. The builtin package is placed
by the search path itself and must not be looked for. -/
theorem resolve_extended {arguments : List String} {catalogue : Catalogue}
    {ledger after : Ledger}
    (resolved : resolve settings arguments ledger = .ok catalogue after)
    (unsought : ¬ Resolve.Seeks settings Builtin.name arguments
      ⟨.empty, ledger⟩)
    (agree : ∀ token, Resolve.Seeks settings token arguments ⟨.empty, ledger⟩ →
      settings.loader.AgreeOn (settings.probes token) loader) :
    resolve (settings.extended directories loader) arguments ledger =
      .ok catalogue after := by
  have alike : ∀ token,
      Resolve.Seeks settings token arguments ⟨.empty, ledger⟩ →
      settings.SearchesAlike loader token := by
    intro token seeks
    refine ⟨?_, agree token seeks⟩
    rintro rfl
    exact unsought seeks
  rcases resolve_eq_ok_iff.mp resolved with ⟨session, pushed, finished, ended⟩
  exact resolve_eq_ok_iff.mpr
    ⟨session, Resolve.pushAll_extended alike pushed, finished, ended⟩

end Catalogue

end

/-! A requirement in the first of two directories, with another file for it in
the second, and a third directory with other files for both packages. -/

namespace ShadowedFiles

def files : List (String × String) :=
  [("/a/x.pc", "Name:\nVersion: 2\nDescription:\n"),
    ("/b/y.pc", "Name:\nVersion:\nDescription:\nRequires: x > 1\n")]

def others : List (String × String) :=
  [("/b/x.pc", "broken"), ("/c/x.pc", ""), ("/c/y.pc", "")]

def settings : Settings :=
  { Choices.none with fixedPath := some "/a:/b" }.settings .empty
    (FileTable.loader (Table.ofList files))

def completed : Loader := FileTable.loader (Table.ofList (files ++ others))

def outcome : EStateM.Result Error Session Unit →
    Option (List String × List String × List String)
  | .ok () session =>
      match session.resolution.finish with
      | .ok catalogue =>
          some (catalogue.packages.map Package.path,
            session.resolution.catalogue.realnames, session.ledger.paths)
      | .error _ => none
  | .error .. => none

theorem outcome_pushAll :
    outcome (Resolve.pushAll settings ["y"] ⟨.empty, settings.freshLedger⟩) =
      some (["/b/y.pc", "/a/x.pc"], ["y", "x"],
        ["/a/x.pc", "/b/y.pc", "/a/y.pc"]) := by
  rw [Resolve.pushAll_singleton]
  cbv

theorem agreeOn_completed :
    settings.loader.AgreeOn ["/a/x.pc", "/b/y.pc", "/a/y.pc"] completed := by
  simp only [Loader.AgreeOn, List.forall_mem_cons]
  refine ⟨?_, ?_, ?_, nofun⟩ <;> cbv

theorem resolve_extended_shadowed : ∃ catalogue after,
    catalogue.packages.map Package.path = ["/b/y.pc", "/a/x.pc"] ∧
    Catalogue.resolve settings ["y"] settings.freshLedger =
      .ok catalogue after ∧
    Catalogue.resolve (settings.extended ["/c"] completed) ["y"]
      settings.freshLedger = .ok catalogue after := by
  have seen := outcome_pushAll
  unfold outcome at seen
  split at seen
  next session pushed =>
    split at seen
    next catalogue finished =>
      simp only [Option.some.injEq, Prod.mk.injEq] at seen
      rcases seen with ⟨places, names, paths⟩
      have resolved := Catalogue.resolve_eq_ok_iff.mpr
        ⟨session, pushed, finished, rfl⟩
      have unsought : ¬ Resolve.Seeks settings Builtin.name ["y"]
          ⟨.empty, settings.freshLedger⟩ := by
        intro seeks
        have listed := (seeks.searched pushed).listed
        rw [names] at listed
        exact absurd listed (by decide)
      refine ⟨catalogue, session.ledger, places, resolved, ?_⟩
      apply Catalogue.resolve_extended resolved unsought
      intro token seeks path probed
      have other : token ≠ Builtin.name := by
        rintro rfl
        exact unsought seeks
      have asked := (seeks.searched pushed).asked other path probed
      rw [paths] at asked
      exact agreeOn_completed path asked
    · cases seen
  · cases seen

end ShadowedFiles

end PkgConfig
