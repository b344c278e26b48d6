import PkgConfig.Proofs.Consistency
import PkgConfig.Proofs.Constraint
import PkgConfig.Proofs.Evaluation
import PkgConfig.Proofs.LoadingErrors
import PkgConfig.Proofs.Trail

namespace PkgConfig

/-! Readings that break off at a version, as derivations. The constraint that is
refused is written in the list that is read, or in a list of a package that was
opened on the way. -/

/-- `Breaks settings name comparator wanted found position tokens before after`:
reading the tokens breaks off because the package `name` is not `wanted`, but
`found`. -/
inductive Breaks (settings : Settings) (name : String)
    (comparator : Comparator) (wanted found : String) :
    Position → List String → Catalogue → Catalogue → Prop
  | refused
      (pending : position.pending = some comparator)
      (held : position.last.bind before.package? = some package)
      (called : package.realname = name)
      (version : package.version = found)
      (fails : comparator.holds found wanted = false) :
      Breaks settings name comparator wanted found position (wanted :: tokens)
        before before
  | later
      (first : Reads settings opened depth marks position [token] before next
        between)
      (rest : Breaks settings name comparator wanted found next tokens between
        after) :
      Breaks settings name comparator wanted found position (token :: tokens)
        before after
  | nested {id : Nat}
      (extended : between.Extends before)
      (held : between.package? id = some lister)
      (listed : field ∈ Field.requirements)
      (inner : Breaks settings name comparator wanted found .start
        (Text.tokens (lister.field field)) between after) :
      Breaks settings name comparator wanted found position (token :: tokens)
        before after

/-! ## From readings to derivations -/

theorem Resolve.bind_eq_error_iff {first : Resolve α} {second : α → Resolve β}
    {error : Error} {before after : Session} :
    (first >>= second) before = .error error after ↔
      first before = .error error after ∨
        ∃ result between, first before = .ok result between ∧
          second result between = .error error after := by
  simp only [bind, EStateM.bind]
  split
  next result between equal => simp [equal, and_assoc]
  next error between equal => simp [equal]

private theorem Resolve.ofRun_eq_ok {run : Run α} {value : α}
    {before after : Session} (ran : ofRun run before = .ok value after) :
    after.resolution = before.resolution := by
  unfold ofRun at ran
  split at ran <;> cases ran
  rfl

private theorem Resolve.ofRun_eq_error {run : Run α} {error : Error}
    {before after : Session} (failed : ofRun run before = .error error after) :
    run before.ledger = .error error after.ledger := by
  unfold ofRun at failed
  split at failed <;> cases failed
  assumption

namespace RecursiveWalk

/-- The error comes from a list of a package that is read below the present
list. -/
inductive FailsInside (settings : Settings) (opened : Nat) (error : Error)
    (before after : Session) : Prop
  | intro (start : Session) (id : Nat) (lister : Package)
      (deeper : opened < more) (room : more ≤ maxFrames)
      (extended : start.resolution.catalogue.Extends
        before.resolution.catalogue)
      (held : start.resolution.catalogue.package? id = some lister)
      (listed : field ∈ Field.requirements)
      (failed : (Text.tokens (lister.field field)).foldlM
        (readToken settings more depth marks) .start start =
          .error error after)

section

variable {settings : Settings} {opened depth : Nat} {marks : Marks}
  {position : Position} {token name wanted found : String}
  {comparator : Comparator} {before after : Session}

private theorem checkVersion_eq_error {last : Option Nat}
    {operator : Comparator}
    (failed : Walk.checkVersion settings last operator token before =
      .error (.versionMismatch name comparator wanted found) after) :
    after = before ∧ operator = comparator ∧ token = wanted ∧
      comparator.holds found wanted = false ∧
      ∃ package, last.bind before.resolution.catalogue.package? =
        some package ∧ package.realname = name ∧ package.version = found := by
  rw [Walk.checkVersion, Resolve.catalogue_bind] at failed
  split at failed
  · cases failed
  · cases held : last.bind before.resolution.catalogue.package? with
    | none =>
        simp only [held] at failed
        cases failed
    | some package =>
        simp only [held, Package.checkVersion] at failed
        by_cases holds : operator.holds package.version token = true
        · simp only [holds, if_true] at failed
          cases failed
        · simp only [holds, Bool.false_eq_true, if_false] at failed
          cases failed
          exact ⟨rfl, rfl, rfl, by simpa using holds, package, rfl, rfl, rfl⟩

private theorem readNested_eq_error
    {read : Position → String → Resolve Position} {tokens : List String}
    (failed : readNested read tokens before =
      .error (.versionMismatch name comparator wanted found) after) :
    tokens.foldlM read .start before =
      .error (.versionMismatch name comparator wanted found) after := by
  rcases Resolve.bind_eq_error_iff.mp failed with
    read | ⟨position, _, _, ended⟩
  · exact read
  · rw [endList] at ended
    cases pending : position.pending with
    | none =>
        simp only [pending] at ended
        cases ended
    | some comparator =>
        simp only [pending] at ended
        cases ended

private theorem revisit_eq_error {id : Nat} {package : Package}
    (held : before.resolution.catalogue.package? id = some package)
    (failed : revisit settings opened depth marks token id before =
      .error (.versionMismatch name comparator wanted found) after) :
    FailsInside settings opened
      (.versionMismatch name comparator wanted found) before after := by
  have extended := Catalogue.extends_mergeMarks before.resolution.catalogue id
    marks
  rcases extended id package held with ⟨more, kept⟩
  rw [revisit, Resolve.catalogue_bind] at failed
  by_cases exposes : (marks.exposed &&
      !(before.resolution.catalogue.marksOf id).exposed) = true
  · simp only [exposes, if_true, Bool.true_and] at failed
    by_cases reads : Walk.readsRequirements settings (depth + 1) = true
    · by_cases room : opened + 1 ≤ maxFrames
      · simp only [reads, room, if_true, dif_pos,
          Catalogue.requirements_eq held] at failed
        rcases Resolve.bind_eq_error_iff.mp failed with
          noted | ⟨_, _, noted, failed⟩ <;> cases noted
        rcases Resolve.bind_eq_error_iff.mp failed with
          marked | ⟨_, _, marked, failed⟩ <;> cases marked
        rcases Resolve.bind_eq_error_iff.mp failed with
          nested | ⟨_, _, _, finished⟩
        · exact .intro _ id (package.mark more) (Nat.lt_succ_self _) room
            extended kept Field.requires_mem_requirements
            (readNested_eq_error nested)
        · cases finished
      · simp only [reads, room, if_true, dif_neg, not_false_eq_true] at failed
        cases failed
    · simp only [reads, Bool.false_eq_true, if_false] at failed
      cases failed
  · simp only [exposes, Bool.false_eq_true, if_false, Bool.false_and]
      at failed
    cases failed

private theorem discover_eq_error
    (failed : discover settings opened depth marks token before =
      .error (.versionMismatch name comparator wanted found) after) :
    FailsInside settings opened
      (.versionMismatch name comparator wanted found) before after := by
  rw [discover] at failed
  rcases Resolve.bind_eq_error_iff.mp failed with
    find | ⟨package, loaded, find, failed⟩
  · have loading := Package.find_onlyLoads settings token _ _ _
      (Resolve.ofRun_eq_error find)
    cases loading
  have held := Catalogue.package?_enrol_size before.resolution.catalogue package
    marks
  have extended := Catalogue.extends_enrol before.resolution.catalogue package
    marks
  rw [Resolve.catalogue_bind, Resolve.ofRun_eq_ok find] at failed
  rcases Resolve.bind_eq_error_iff.mp failed with
    inserted | ⟨_, _, inserted, failed⟩ <;> cases inserted
  by_cases reads : Walk.readsRequirements settings (depth + 1) = true
  · by_cases room : opened + 2 ≤ maxFrames
    · simp only [reads, room, if_true, dif_pos] at failed
      rcases Resolve.bind_eq_error_iff.mp failed with
        marked | ⟨_, _, marked, failed⟩ <;> cases marked
      rcases Resolve.bind_eq_error_iff.mp failed with
        publicList | ⟨_, between, publicList, failed⟩
      · exact .intro _ _ (package.mark marks) (by omega) room extended held
          Field.requires_mem_requirements (readNested_eq_error publicList)
      rcases Resolve.bind_eq_error_iff.mp failed with
        privateList | ⟨_, _, _, finished⟩
      · rcases readNested_eq_ok publicList with ⟨ending, publicList, _⟩
        have grown := (reads_of_foldlM publicList).extended
        rcases grown _ _ held with ⟨more, kept⟩
        exact .intro _ _ ((package.mark marks).mark more) (by omega) (by omega)
          (grown.trans extended) kept Field.requiresPrivate_mem_requirements
          (readNested_eq_error privateList)
      · cases finished
    · simp only [reads, room, if_true, dif_neg, not_false_eq_true] at failed
      cases failed
  · simp only [reads, Bool.false_eq_true, if_false] at failed
    cases failed

private theorem readToken_eq_error
    (failed : readToken settings opened depth marks position token before =
      .error (.versionMismatch name comparator wanted found) after)
    (tokens : List String) :
    Breaks settings name comparator wanted found position (token :: tokens)
        before.resolution.catalogue after.resolution.catalogue ∨
      FailsInside settings opened
        (.versionMismatch name comparator wanted found) before after := by
  rw [readToken] at failed
  cases pending : position.pending with
  | some operator =>
      simp only [pending] at failed
      rcases Resolve.bind_eq_error_iff.mp failed with
        check | ⟨_, _, _, finished⟩
      · rcases checkVersion_eq_error check with
          ⟨rfl, rfl, rfl, fails, package, held, called, version⟩
        exact .inl (.refused pending held called version fails)
      · cases finished
  | none =>
      cases operator : Comparator.ofToken? token with
      | some comparator =>
          simp only [pending, operator] at failed
          split at failed <;> cases failed
      | none =>
          simp only [pending, operator, Resolve.catalogue_bind] at failed
          cases located : before.resolution.catalogue.find?
              (Location.realname token) with
          | some id =>
              simp only [located] at failed
              rcases Catalogue.package?_of_find? located with
                ⟨package, held, _⟩
              exact .inr (revisit_eq_error held failed)
          | none =>
              simp only [located] at failed
              exact .inr (discover_eq_error failed)

private theorem breaks_of_foldlM {tokens : List String}
    (failed : tokens.foldlM (readToken settings opened depth marks) position
      before = .error (.versionMismatch name comparator wanted found) after) :
    Breaks settings name comparator wanted found position tokens
      before.resolution.catalogue after.resolution.catalogue := by
  induction measured : maxFrames - opened using Nat.strongRecOn generalizing
    opened depth marks tokens position before after with
  | ind room outer =>
  induction tokens generalizing position before with
  | nil => cases failed
  | cons token tokens inner =>
      rw [List.foldlM_cons] at failed
      rcases Resolve.bind_eq_error_iff.mp failed with
        first | ⟨next, between, first, rest⟩
      · rcases readToken_eq_error first tokens with breaks | inside
        · exact breaks
        · rcases inside with
            ⟨start, id, lister, deeper, _, extended, held, listed, failed⟩
          exact .nested extended held listed (outer _ (by omega) failed rfl)
      · have read : [token].foldlM (readToken settings opened depth marks)
            position before = .ok next between := by
          simpa using first
        exact .later (reads_of_foldlM read) (inner rest)

end

end RecursiveWalk

/-! ## What is refused -/

namespace Breaks

variable {settings : Settings} {name wanted found : String}
  {comparator : Comparator} {position : Position} {tokens : List String}
  {before after : Catalogue}

theorem extended (breaks : Breaks settings name comparator wanted found
    position tokens before after) : after.Extends before := by
  induction breaks with
  | refused => exact .refl _
  | later first _ rest => exact rest.trans first.extended
  | nested extended _ _ _ inner => exact inner.trans extended

private theorem refuses
    (breaks : Breaks settings name comparator wanted found position
    tokens before after) :
    comparator.holds found wanted = false ∧
      ∃ package ∈ after.packages, package.realname = name ∧
        package.version = found := by
  induction breaks with
  | refused _ held called version fails =>
      rcases Option.bind_eq_some_iff.mp held with ⟨id, _, held⟩
      exact ⟨fails, _, Catalogue.mem_packages_iff.mpr ⟨id, held⟩, called,
        version⟩
  | later _ _ rest => exact rest
  | nested _ _ _ _ inner => exact inner

/-- The refused constraint is written where the reading breaks off, and its
version is one of the tokens that were left to read; or it is written in a list
of a package. -/
theorem written (checked : settings.isOn .ignoreVersions = false)
    {said : List String} (stands : before.Stands said position)
    (breaks : Breaks settings name comparator wanted found position tokens
      before after) :
    ∃ required, Location.realname required = name ∧
      (Requirement.EndsWithin said tokens required comparator wanted ∨
        ∃ lister ∈ after.packages, ∃ field ∈ Field.requirements,
          .constraint required comparator wanted ∈
            Requirement.ofTokens (Text.tokens (lister.field field))) := by
  induction breaks generalizing said with
  | refused pending held called _ _ =>
      rcases stands.exists_awaiting pending with ⟨earlier, required, operator,
        package, rfl, settled, names, operates, same, leads⟩
      cases held.symm.trans same
      refine ⟨required, leads.symm.trans called, .inl ?_⟩
      have whole := settled.ofTokens_constraint names operates
      refine ⟨Requirement.ofTokens earlier, [], _, rfl, ?_⟩
      rw [List.append_assoc]
      exact whole _ _
  | later first _ rest =>
      rcases rest (first.stands checked stands) with
        ⟨required, called, within | listed⟩
      · exact ⟨required, called, .inl within.cons⟩
      · exact ⟨required, called, .inr listed⟩
  | nested extended held listed breaks inner =>
      rcases inner (.nil _) with ⟨required, called, within | listed⟩
      · refine ⟨required, called, .inr ?_⟩
        rcases breaks.extended _ _ held with ⟨marks, kept⟩
        exact ⟨_, Catalogue.mem_packages_iff.mpr ⟨_, kept⟩, _, listed,
          within.mem⟩
      · exact ⟨required, called, .inr listed⟩

end Breaks

/-! ## Sequences of arguments -/

namespace Resolution

def accepted (settings : Settings) :
    Resolution → List (Ledger × String) → List String
  | _, [] => []
  | resolution, push :: rest =>
      let later := accepted settings (resolution.pushed settings push) rest
      match Resolve.push settings push.2 ⟨resolution, push.1⟩ with
      | .ok .. => push.2 :: later
      | .error .. => later

/-- An argument that fails leaves the reader where it was, in a catalogue that
may have grown. -/
theorem stands_afterPushes {settings : Settings}
    (checked : settings.isOn .ignoreVersions = false)
    (pushes : List (Ledger × String)) {resolution : Resolution}
    {said : List String}
    (stands : resolution.catalogue.Stands said resolution.position) :
    let final := pushes.foldl (pushed settings) resolution
    final.catalogue.Stands
      (said ++ (accepted settings resolution pushes).flatMap Text.tokens)
      final.position := by
  induction pushes generalizing resolution said with
  | nil => simpa [accepted] using stands
  | cons push rest induction =>
      have grown := (grows_pushed settings resolution push).extended
      rw [List.foldl_cons, accepted]
      cases read : Resolve.push settings push.2 ⟨resolution, push.1⟩ with
      | ok _ after =>
          have same : resolution.pushed settings push = after.resolution := by
            rw [pushed, read]
            rfl
          have next := (reads_of_push read).stands checked stands
          rw [← same] at next
          simpa using induction next
      | error error after =>
          have kept : (resolution.pushed settings push).position =
              resolution.position := by
            rw [pushed, read]
            exact position_of_failed read
          have next := stands.later grown
          rw [← kept] at next
          exact induction next

end Resolution

private theorem meetsAll_of_resolve {settings : Settings}
    (recursive : settings.isOn .skipRequires = false)
    (checked : settings.isOn .ignoreVersions = false)
    (unlimited : maxFrames < settings.maxTraversalDepth)
    {arguments : List String} {catalogue : Catalogue} {before after : Ledger}
    (resolved : Catalogue.resolve settings arguments before =
      .ok catalogue after) :
    catalogue.MeetsAll (arguments.flatMap Text.tokens) ∧
      ∀ package ∈ catalogue.packages, ∀ field ∈ Field.requirements,
        catalogue.MeetsAll (Text.tokens (package.field field)) := by
  rcases complete_of_resolve resolved with ⟨final, complete, reads⟩
  have readable := Walk.readsRequirements_of_unlimited recursive unlimited
  refine ⟨(reads.settles checked complete).met, fun package listed => ?_⟩
  have gains := reads.lists_met checked readable (by decide) (by decide)
    (.refl _) (reads.nodup List.nodup_nil)
  exact gains.of_empty listed rfl package listed rfl

private theorem breaks_of_push {settings : Settings}
    {argument name wanted found : String} {comparator : Comparator}
    {before after : Session}
    (failed : Resolve.push settings argument before =
      .error (.versionMismatch name comparator wanted found) after) :
    Breaks settings name comparator wanted found before.resolution.position
      (Text.tokens argument) before.resolution.catalogue
      after.resolution.catalogue :=
  RecursiveWalk.breaks_of_foldlM (readArgument_of_push failed)

/-- If a command line is resolved, all that it requires and all that its packages
require is written properly and met. If an argument is refused because of a
version, the constraint is written in the arguments and ends in this one, or it
is written in a list of a package that was loaded, and the package it is about
does not satisfy it. -/
theorem constraints_checked {settings : Settings}
    (recursive : settings.isOn .skipRequires = false)
    (checked : settings.isOn .ignoreVersions = false)
    (unlimited : maxFrames < settings.maxTraversalDepth) :
    (∀ arguments catalogue before after,
      Catalogue.resolve settings arguments before = .ok catalogue after →
        catalogue.realnames.Nodup ∧
          catalogue.MeetsAll (arguments.flatMap Text.tokens) ∧
          ∀ package ∈ catalogue.packages, ∀ field ∈ Field.requirements,
            catalogue.MeetsAll (Text.tokens (package.field field))) ∧
      ∀ pushes ledger argument name comparator wanted found after,
        Resolve.push settings argument
            ⟨Resolution.afterPushes settings pushes, ledger⟩ =
          .error (.versionMismatch name comparator wanted found) after →
        let catalogue := after.resolution.catalogue
        let said :=
          (Resolution.accepted settings .empty pushes).flatMap Text.tokens
        catalogue.realnames.Nodup ∧
          comparator.holds found wanted = false ∧
          (∃ package ∈ catalogue.packages, package.realname = name ∧
            package.version = found) ∧
          ∃ required, Location.realname required = name ∧
            (Requirement.EndsWithin said (Text.tokens argument) required
                comparator wanted ∨
              ∃ lister ∈ catalogue.packages, ∃ field ∈ Field.requirements,
                .constraint required comparator wanted ∈
                  Requirement.ofTokens (Text.tokens (lister.field field))) := by
  constructor
  · intro arguments catalogue before after resolved
    rcases complete_of_resolve resolved with ⟨final, _, reads⟩
    exact ⟨reads.nodup List.nodup_nil,
      meetsAll_of_resolve recursive checked unlimited resolved⟩
  · intro pushes ledger argument name comparator wanted found after failed
    have breaks := breaks_of_push failed
    have start : Resolution.empty.catalogue.Stands []
        Resolution.empty.position := .nil .empty
    have stands := Resolution.stands_afterPushes checked pushes start
    have grown := (Resolution.grows_afterPushes settings pushes).trans
      (Resolution.grows_pushed settings _ (ledger, argument))
    rw [Resolution.pushed, failed] at grown
    rcases breaks.refuses with ⟨fails, present⟩
    exact ⟨grown.nodup List.nodup_nil, fails, present,
      breaks.written checked stands⟩

/-- A constraint that is split over three arguments is reported by the last one,
though neither that argument nor a list of a package contains it. -/
theorem split_constraint_reported :
    let settings := FileTable.settings .none
      [("/p/a.pc", "Name:\nVersion: 1\nDescription:\n")]
    settings.isOn .skipRequires = false ∧
      settings.isOn .ignoreVersions = false ∧
      settings.maxTraversalDepth = Defaults.maxTraversalDepth ∧
      ∃ between after,
        Resolve.pushAll settings ["a", ">="] ⟨.empty, settings.freshLedger⟩ =
          .ok () between ∧
        Resolve.push settings "2" between =
          .error (.versionMismatch "a" .greaterOrEqual "2" "1") after ∧
        (∀ required comparator version,
          .constraint required comparator version ∉
            Requirement.ofTokens (Text.tokens "2")) ∧
        ∀ lister ∈ after.resolution.catalogue.packages,
          ∀ field ∈ Field.requirements, ∀ required comparator version,
            .constraint required comparator version ∉
              Requirement.ofTokens (Text.tokens (lister.field field)) := by
  intro settings
  have computed : (RecursiveWalk.failureBehind? settings ["a", ">="] "2").map
      (Prod.map id fun catalogue => catalogue.packages.map fun lister =>
        Field.requirements.map fun field =>
          Requirement.ofTokens (Text.tokens (lister.field field))) =
      some (.versionMismatch "a" .greaterOrEqual "2" "1", [[[], []]]) := by
    cbv
  rcases Resolve.push_of_failureBehind? computed with
    ⟨between, after, pushed, failed, lists⟩
  have alone : Requirement.ofTokens (Text.tokens "2") = [.package "2"] := by
    cbv
  refine ⟨by decide, by decide, by decide, between, after, pushed, failed, ?_,
    ?_⟩
  · simp [alone]
  · intro lister listed field among required comparator version
    have empty := List.mem_map_of_mem (f := fun lister : Package =>
      Field.requirements.map fun field =>
        Requirement.ofTokens (Text.tokens (lister.field field))) listed
    rw [lists, List.mem_singleton] at empty
    have member := List.mem_map_of_mem (f := fun field =>
      Requirement.ofTokens (Text.tokens (lister.field field))) among
    rw [empty] at member
    have none :
        Requirement.ofTokens (Text.tokens (lister.field field)) = [] := by
      simpa using member
    rw [none]
    exact List.not_mem_nil

def constraintSettings : Settings :=
  FileTable.settings .none
    [FileTable.metadataFile "a" "Requires: b >= 1.2\n",
      ("/p/b.pc", "Name:\nVersion: 1.10\nDescription:\n")]

/-- The version satisfies the package, but not every argument. -/
theorem constraints_checked_requires :
    constraintSettings.isOn .skipRequires = false ∧
      constraintSettings.isOn .ignoreVersions = false ∧
      maxFrames < constraintSettings.maxTraversalDepth ∧
      (∃ catalogue after,
        Catalogue.resolve constraintSettings ["a b < 2"]
          constraintSettings.freshLedger = .ok catalogue after ∧
        catalogue.realnames = ["a", "b"] ∧
        catalogue.Meets (.constraint "b" .less "2") ∧
        ∀ package ∈ catalogue.packages, ∀ field ∈ Field.requirements,
          catalogue.MeetsAll (Text.tokens (package.field field))) ∧
      ∃ after,
        Resolve.push constraintSettings "a b >= 2"
          ⟨.empty, constraintSettings.freshLedger⟩ =
            .error (.versionMismatch "b" .greaterOrEqual "2" "1.10") after ∧
        ∃ package ∈ after.resolution.catalogue.packages,
          package.realname = "b" ∧ package.version = "1.10" := by
  have recursive : constraintSettings.isOn .skipRequires = false := by decide
  have checked : constraintSettings.isOn .ignoreVersions = false := by decide
  have unlimited : maxFrames < constraintSettings.maxTraversalDepth := by decide
  have described := constraints_checked recursive checked unlimited
  refine ⟨recursive, checked, unlimited, ?success, ?failure⟩
  case success =>
    have computed : (RecursiveWalk.resolve? constraintSettings "a b < 2").map
        Catalogue.realnames = some ["a", "b"] := by
      cbv
    rcases Catalogue.resolve_of_resolve? computed with
      ⟨catalogue, after, resolved, names⟩
    have cut : Requirement.ofTokens (["a b < 2"].flatMap Text.tokens) =
        [.package "a", .constraint "b" .less "2"] := by
      cbv
    rcases described.1 _ _ _ _ resolved with ⟨_, asked, lists⟩
    rw [Catalogue.MeetsAll, cut] at asked
    exact ⟨catalogue, after, resolved, names, asked _ (by simp), lists⟩
  case failure =>
    have computed : RecursiveWalk.failure? constraintSettings "a b >= 2" =
        some (.versionMismatch "b" .greaterOrEqual "2" "1.10") := by
      cbv
    rcases Resolve.push_of_failure? computed with ⟨after, failed⟩
    have refused := described.2 [] _ _ _ _ _ _ _ failed
    exact ⟨after, failed, refused.2.2.1⟩

end PkgConfig
