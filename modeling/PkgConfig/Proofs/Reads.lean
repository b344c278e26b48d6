import PkgConfig.Proofs.RecursiveWalk

namespace PkgConfig

/-! Successful readings as derivations. What a list does to the catalogue when it
is read to its end is put together from what its tokens do, with the nested
lists as premises of the token that opens them. Budget and journal are left
out. -/

def Package.Loads (settings : Settings) (token : String)
    (package : Package) : Prop :=
  ∃ before after, Package.find settings token before = .ok package after

/-- The version of the package in front of an operator passes, as far as
versions are checked at all. -/
def Catalogue.Satisfies (settings : Settings) (catalogue : Catalogue)
    (last : Option Nat) (comparator : Comparator) (wanted : String) : Prop :=
  settings.isOn .ignoreVersions = false →
    ∀ package, last.bind catalogue.package? = some package →
      comparator.holds package.version wanted = true

def Catalogue.exposes (catalogue : Catalogue) (id : Nat)
    (marks : Marks) : Bool :=
  marks.exposed && !(catalogue.marksOf id).exposed

/-- `Reads settings opened depth marks position tokens before final after`: the
tokens are read from a position to a final one, while `opened` lists are open
and packages are marked with `marks`, and the catalogue grows meanwhile. -/
inductive Reads (settings : Settings) :
    Nat → Nat → Marks → Position → List String → Catalogue →
      Position → Catalogue → Prop
  | done : Reads settings opened depth marks position [] before position before
  | version
      (pending : position.pending = some comparator)
      (satisfied : before.Satisfies settings position.last comparator token)
      (rest : Reads settings opened depth marks .start tokens before
        final after) :
      Reads settings opened depth marks position (token :: tokens) before
        final after
  | operator {id : Nat}
      (settled : position.pending = none)
      (operator : Comparator.ofToken? token = some comparator)
      (applies : position.last = some id)
      (rest : Reads settings opened depth marks ⟨some id, some comparator⟩
        tokens before final after) :
      Reads settings opened depth marks position (token :: tokens) before
        final after
  | known {id : Nat}
      (settled : position.pending = none)
      (names : Comparator.ofToken? token = none)
      (found : before.find? (Location.realname token) = some id)
      (quiet : (before.exposes id marks &&
        Walk.readsRequirements settings (depth + 1)) = false)
      (rest : Reads settings opened depth marks ⟨some id, none⟩ tokens
        (before.mergeMarks id marks) final after) :
      Reads settings opened depth marks position (token :: tokens) before
        final after
  /-- A package that is exposed for the first time. Its requirements are read
  again. -/
  | promoted {id : Nat}
      (settled : position.pending = none)
      (names : Comparator.ofToken? token = none)
      (found : before.find? (Location.realname token) = some id)
      (exposes : before.exposes id marks = true)
      (reads : Walk.readsRequirements settings (depth + 1) = true)
      (room : opened + 1 ≤ maxFrames)
      (publicList : Reads settings (opened + 1) (depth + 1) marks.indirect .start
        (before.requirements id .requires) (before.mergeMarks id marks)
        ending between)
      (complete : ending.pending = none)
      (rest : Reads settings opened depth marks ⟨some id, none⟩ tokens between
        final after) :
      Reads settings opened depth marks position (token :: tokens) before
        final after
  | skipped
      (settled : position.pending = none)
      (names : Comparator.ofToken? token = none)
      (absent : before.find? (Location.realname token) = none)
      (loads : Package.Loads settings token package)
      (closed : Walk.readsRequirements settings (depth + 1) = false)
      (rest : Reads settings opened depth marks ⟨some before.size, none⟩ tokens
        (before.enrol package marks) final after) :
      Reads settings opened depth marks position (token :: tokens) before
        final after
  | loaded
      (settled : position.pending = none)
      (names : Comparator.ofToken? token = none)
      (absent : before.find? (Location.realname token) = none)
      (loads : Package.Loads settings token package)
      (reads : Walk.readsRequirements settings (depth + 1) = true)
      (room : opened + 2 ≤ maxFrames)
      (publicList : Reads settings (opened + 2) (depth + 1) marks.indirect .start
        (Text.tokens (package.field .requires))
        (before.enrol package marks)
        publicEnding between)
      (publicComplete : publicEnding.pending = none)
      (privateList : Reads settings (opened + 1) (depth + 1) .none .start
        (Text.tokens (package.field .requiresPrivate)) between
        privateEnding later)
      (privateComplete : privateEnding.pending = none)
      (rest : Reads settings opened depth marks ⟨some before.size, none⟩ tokens
        later final after) :
      Reads settings opened depth marks position (token :: tokens) before
        final after

/-! ## Loading -/

namespace Package

theorem ofSource_eq_ok_iff {settings : Settings}
    {realname path source : String} {package : Package}
    {before after : Ledger} :
    ofSource settings realname path source before = .ok package after ↔
      ∃ metadata, Metadata.parse source path = .ok metadata ∧
        metadata.missingField? = none ∧
        ofFields settings realname path metadata.bindings
          (metadata.fieldsIn (settings.expansionOrder path)) before =
            .ok package after := by
  rw [ofSource]
  cases parsed : Metadata.parse source path with
  | error error => simp
  | ok metadata =>
      cases missing : metadata.missingField? with
      | some field => simp [missing]
      | none => simp [missing]

private theorem realname_ofSource {settings : Settings}
    {realname path source : String} {package : Package} {before after : Ledger}
    (made : ofSource settings realname path source before =
      .ok package after) :
    package.realname = realname ∧ package.marks = .none := by
  rcases ofSource_eq_ok_iff.mp made with ⟨metadata, _, _, made⟩
  rcases Run.bind_eq_ok_iff.mp made with ⟨bindings, _, _, made⟩
  rcases Run.bind_eq_ok_iff.mp made with ⟨fields, _, _, made⟩
  rcases Run.bind_eq_ok_iff.mp made with ⟨_, _, _, made⟩
  cases made
  exact ⟨rfl, rfl⟩

theorem Loads.realname_eq {settings : Settings} {token : String}
    {package : Package} (loads : Loads settings token package) :
    package.realname = Location.realname token ∧ package.marks = .none := by
  rcases loads with ⟨before, after, found⟩
  rcases Run.bind_eq_ok_iff.mp found with ⟨located, _, _, made⟩
  cases located with
  | none => cases made
  | some located => exact realname_ofSource made

end Package

/-! ## From readings to derivations -/

namespace RecursiveWalk

theorem checkVersion_eq_ok {settings : Settings} {last : Option Nat}
    {comparator : Comparator} {wanted : String} {before after : Session}
    (checked : Walk.checkVersion settings last comparator wanted before =
      .ok () after) :
    after = before ∧ before.resolution.catalogue.Satisfies settings last
      comparator wanted := by
  rw [Walk.checkVersion, Resolve.catalogue_bind] at checked
  cases ignored : settings.isOn .ignoreVersions with
  | true =>
      simp only [ignored, if_true] at checked
      cases checked
      exact ⟨rfl, fun on => absurd (ignored.symm.trans on) (by decide)⟩
  | false =>
      simp only [ignored, Bool.false_eq_true, if_false] at checked
      cases held : last.bind before.resolution.catalogue.package? with
      | none =>
          simp only [held] at checked
          cases checked
          exact ⟨rfl, fun _ package other =>
            absurd (held.symm.trans other) (by simp)⟩
      | some package =>
          simp only [held, Package.checkVersion] at checked
          by_cases holds : comparator.holds package.version wanted = true
          · simp only [holds, if_true] at checked
            cases checked
            refine ⟨rfl, fun _ other same => ?_⟩
            cases held.symm.trans same
            exact holds
          · simp only [holds, Bool.false_eq_true, if_false] at checked
            cases checked

private theorem endList_eq_ok {position : Position} {before after : Session}
    (ended : endList position before = .ok () after) :
    after = before ∧ position.pending = none := by
  rw [endList] at ended
  cases pending : position.pending with
  | none =>
      simp only [pending] at ended
      cases ended
      exact ⟨rfl, rfl⟩
  | some comparator =>
      simp only [pending] at ended
      cases ended

theorem readNested_eq_ok {read : Position → String → Resolve Position}
    {tokens : List String} {before after : Session}
    (nested : readNested read tokens before = .ok () after) :
    ∃ ending, tokens.foldlM read .start before = .ok ending after ∧
      ending.pending = none := by
  rcases Resolve.bind_eq_ok_iff.mp nested with ⟨ending, between, read, ended⟩
  rcases endList_eq_ok ended with ⟨rfl, complete⟩
  exact ⟨ending, read, complete⟩

private theorem revisit_eq_ok {settings : Settings} {opened depth : Nat}
    {marks : Marks}
    {token : String} {id : Nat} {position : Position} {before after : Session}
    (visited : revisit settings opened depth marks token id before =
      .ok position after) :
    let catalogue := before.resolution.catalogue
    position = ⟨some id, none⟩ ∧
      ((catalogue.exposes id marks &&
          Walk.readsRequirements settings (depth + 1)) = false ∧
        after.resolution.catalogue = catalogue.mergeMarks id marks ∨
      catalogue.exposes id marks = true ∧
        Walk.readsRequirements settings (depth + 1) = true ∧
        opened + 1 ≤ maxFrames ∧
        ∃ marked, marked.resolution.catalogue = catalogue.mergeMarks id marks ∧
          readNested
            (readToken settings (opened + 1) (depth + 1) marks.indirect)
            (catalogue.requirements id .requires) marked = .ok () after) := by
  rw [revisit, Resolve.catalogue_bind] at visited
  simp only [Catalogue.exposes]
  by_cases exposes : (marks.exposed &&
      !(before.resolution.catalogue.marksOf id).exposed) = true
  · simp only [exposes, if_true, Bool.true_and] at visited ⊢
    rcases Resolve.bind_eq_ok_iff.mp visited with ⟨_, noted, note, visited⟩
    cases note
    rcases Resolve.bind_eq_ok_iff.mp visited with ⟨_, marked, marking, visited⟩
    cases marking
    by_cases reads : Walk.readsRequirements settings (depth + 1) = true
    · simp only [reads, if_true] at visited ⊢
      by_cases room : opened + 1 ≤ maxFrames
      · simp only [room, dif_pos] at visited
        rcases Resolve.bind_eq_ok_iff.mp visited with ⟨_, _, nested, finished⟩
        cases finished
        exact ⟨rfl, .inr ⟨trivial, trivial, room, _, rfl, nested⟩⟩
      · simp only [room, dif_neg, not_false_eq_true] at visited
        cases visited
    · simp only [reads, Bool.false_eq_true, if_false] at visited
      cases visited
      exact ⟨rfl, .inl ⟨by simpa using reads, rfl⟩⟩
  · simp only [exposes, Bool.false_eq_true, if_false, Bool.false_and]
      at visited
    rcases Resolve.bind_eq_ok_iff.mp visited with ⟨_, marked, marking, visited⟩
    cases marking
    cases visited
    exact ⟨rfl, .inl ⟨by simp [exposes], rfl⟩⟩

private theorem discover_eq_ok {settings : Settings} {opened depth : Nat}
    {marks : Marks} {token : String} {position : Position}
    {before after : Session}
    (visited : discover settings opened depth marks token before =
      .ok position after) :
    ∃ package, Package.Loads settings token package ∧
      let catalogue := before.resolution.catalogue
      position = ⟨some catalogue.size, none⟩ ∧
        (Walk.readsRequirements settings (depth + 1) = false ∧
          after.resolution.catalogue = catalogue.enrol package marks ∨
        Walk.readsRequirements settings (depth + 1) = true ∧
          opened + 2 ≤ maxFrames ∧
          ∃ start between,
            start.resolution.catalogue = catalogue.enrol package marks ∧
            readNested
              (readToken settings (opened + 2) (depth + 1) marks.indirect)
              (Text.tokens (package.field .requires)) start =
                .ok () between ∧
            readNested (readToken settings (opened + 1) (depth + 1) .none)
              (Text.tokens (package.field .requiresPrivate)) between =
                .ok () after) := by
  rw [discover] at visited
  rcases Resolve.bind_eq_ok_iff.mp visited with ⟨package, found, find, visited⟩
  have loads : Package.Loads settings token package ∧
      found.resolution = before.resolution := by
    unfold Resolve.ofRun at find
    split at find
    next loaded => cases find; exact ⟨⟨_, _, loaded⟩, rfl⟩
    · cases find
  refine ⟨package, loads.1, ?_⟩
  rw [Resolve.catalogue_bind, loads.2] at visited
  rcases Resolve.bind_eq_ok_iff.mp visited with ⟨_, _, inserting, visited⟩
  cases inserting
  by_cases reads : Walk.readsRequirements settings (depth + 1) = true
  · simp only [reads, if_true] at visited ⊢
    by_cases room : opened + 2 ≤ maxFrames
    · simp only [room, dif_pos] at visited
      rcases Resolve.bind_eq_ok_iff.mp visited with ⟨_, _, marking, visited⟩
      cases marking
      rcases Resolve.bind_eq_ok_iff.mp visited with ⟨_, _, first, visited⟩
      rcases Resolve.bind_eq_ok_iff.mp visited with ⟨_, _, second, visited⟩
      cases visited
      exact ⟨rfl, .inr ⟨trivial, room, _, _, rfl, first, second⟩⟩
    · simp only [room, dif_neg, not_false_eq_true] at visited
      cases visited
  · simp only [reads, Bool.false_eq_true, if_false] at visited
    rcases Resolve.bind_eq_ok_iff.mp visited with ⟨_, _, marking, visited⟩
    cases marking
    cases visited
    exact ⟨rfl, .inl ⟨by simpa using reads, rfl⟩⟩

/-- A list that is read successfully has a derivation. -/
theorem reads_of_foldlM {settings : Settings} {opened depth : Nat}
    {marks : Marks} {tokens : List String} {position final : Position}
    {before after : Session}
    (read : tokens.foldlM (readToken settings opened depth marks) position
      before = .ok final after) :
    Reads settings opened depth marks position tokens
      before.resolution.catalogue final after.resolution.catalogue := by
  induction measured : maxFrames - opened using Nat.strongRecOn generalizing
    opened depth marks tokens position final before after with
  | ind room outer =>
  induction tokens generalizing position before with
  | nil =>
      cases read
      exact .done
  | cons token tokens inner =>
      rw [List.foldlM_cons] at read
      rcases Resolve.bind_eq_ok_iff.mp read with ⟨next, between, first, rest⟩
      have rest := inner rest
      rw [readToken] at first
      cases pending : position.pending with
      | some comparator =>
          simp only [pending] at first
          rcases Resolve.bind_eq_ok_iff.mp first with ⟨_, _, check, finished⟩
          rcases checkVersion_eq_ok check with ⟨rfl, satisfied⟩
          cases finished
          exact .version pending satisfied rest
      | none =>
          cases operator : Comparator.ofToken? token with
          | some comparator =>
              simp only [pending, operator] at first
              cases applies : position.last with
              | none =>
                  simp only [applies, Option.isNone_none, if_true] at first
                  cases first
              | some id =>
                  simp only [applies, Option.isNone_some, Bool.false_eq_true,
                    if_false] at first
                  cases first
                  exact .operator pending operator applies rest
          | none =>
              simp only [pending, operator, Resolve.catalogue_bind] at first
              cases found : before.resolution.catalogue.find?
                  (Location.realname token) with
              | some id =>
                  simp only [found] at first
                  rcases revisit_eq_ok first with ⟨rfl, quiet | promoted⟩
                  · rw [quiet.2] at rest
                    exact .known pending operator found quiet.1 rest
                  · rcases promoted with
                      ⟨exposes, reads, room, marked, same, nested⟩
                    rcases readNested_eq_ok nested with
                      ⟨ending, nested, complete⟩
                    have nested := outer _ (by omega) nested rfl
                    rw [same] at nested
                    exact .promoted pending operator found exposes reads room
                      nested complete rest
              | none =>
                  simp only [found] at first
                  rcases discover_eq_ok first with
                    ⟨package, loads, rfl, skipped | loaded⟩
                  · rw [skipped.2] at rest
                    exact .skipped pending operator found loads skipped.1 rest
                  · rcases loaded with
                      ⟨reads, room, start, middle, same, publicList,
                        privateList⟩
                    rcases readNested_eq_ok publicList with
                      ⟨publicEnding, publicList, publicComplete⟩
                    rcases readNested_eq_ok privateList with
                      ⟨privateEnding, privateList, privateComplete⟩
                    have publicList := outer _ (by omega) publicList rfl
                    have privateList := outer _ (by omega) privateList rfl
                    rw [same] at publicList
                    exact .loaded pending operator found loads reads room
                      publicList publicComplete privateList privateComplete rest

end RecursiveWalk

namespace Reads

theorem append {settings : Settings} {opened depth : Nat} {marks : Marks}
    {position middle final : Position} {left right : List String}
    {before between after : Catalogue}
    (first : Reads settings opened depth marks position left before middle
      between)
    (second : Reads settings opened depth marks middle right between final
      after) :
    Reads settings opened depth marks position (left ++ right) before final
      after := by
  induction first with
  | done => exact second
  | version pending satisfied _ rest =>
      exact .version pending satisfied (rest second)
  | operator settled operator applies _ rest =>
      exact .operator settled operator applies (rest second)
  | known settled names found quiet _ rest =>
      exact .known settled names found quiet (rest second)
  | promoted settled names found exposes reads room publicList complete _ _
      rest =>
      exact .promoted settled names found exposes reads room publicList
        complete (rest second)
  | skipped settled names absent loads closed _ rest =>
      exact .skipped settled names absent loads closed (rest second)
  | loaded settled names absent loads reads room publicList publicComplete
      privateList privateComplete _ _ _ rest =>
      exact .loaded settled names absent loads reads room publicList
        publicComplete privateList privateComplete (rest second)

end Reads

theorem reads_of_push {settings : Settings} {argument : String}
    {before after : Session}
    (pushed : Resolve.push settings argument before = .ok () after) :
    Reads settings 1 0 .named before.resolution.position
      (Text.tokens argument) before.resolution.catalogue
      after.resolution.position after.resolution.catalogue := by
  rw [Resolve.push, RecursiveWalk.run_start] at pushed
  cases read : RecursiveWalk.readArgument settings before.resolution.position
      argument before with
  | error error between =>
      simp only [read] at pushed
      cases pushed
  | ok position between =>
      simp only [read] at pushed
      cases pushed
      have reads := RecursiveWalk.reads_of_foldlM read
      exact reads

theorem readArgument_of_push {settings : Settings} {argument : String}
    {error : Error} {before after : Session}
    (failed : Resolve.push settings argument before = .error error after) :
    RecursiveWalk.readArgument settings before.resolution.position argument
      before = .error error after := by
  rw [Resolve.push, RecursiveWalk.run_start] at failed
  cases read : RecursiveWalk.readArgument settings before.resolution.position
      argument before with
  | error error between =>
      simp only [read] at failed
      cases failed
      rfl
  | ok position between =>
      simp only [read] at failed
      cases failed

theorem reads_of_pushAll {settings : Settings} {arguments : List String}
    {before after : Session}
    (pushed : Resolve.pushAll settings arguments before = .ok () after) :
    Reads settings 1 0 .named before.resolution.position
      (arguments.flatMap Text.tokens) before.resolution.catalogue
      after.resolution.position after.resolution.catalogue := by
  induction arguments generalizing before with
  | nil =>
      cases pushed
      exact .done
  | cons argument rest induction =>
      rcases Resolve.bind_eq_ok_iff.mp pushed with ⟨_, between, first, second⟩
      exact (reads_of_push first).append (induction second)

/-- A command line is read as one list, and no operator is left waiting. -/
theorem complete_of_resolve {settings : Settings} {arguments : List String}
    {catalogue : Catalogue} {before after : Ledger}
    (resolved : Catalogue.resolve settings arguments before =
      .ok catalogue after) :
    ∃ final, final.pending = none ∧
      Reads settings 1 0 .named .start (arguments.flatMap Text.tokens)
        .empty final catalogue := by
  unfold Catalogue.resolve at resolved
  cases pushed : Resolve.pushAll settings arguments ⟨.empty, before⟩ with
  | error error session =>
      simp only [pushed] at resolved
      cases resolved
  | ok _ session =>
      simp only [pushed] at resolved
      have reads := reads_of_pushAll pushed
      cases finished : session.resolution.finish with
      | error error =>
          simp only [finished] at resolved
          cases resolved
      | ok result =>
          simp only [finished] at resolved
          cases resolved
          unfold Resolution.finish at finished
          split at finished
          · cases finished
          next closed =>
            split at finished
            · cases finished
            · cases finished
              exact ⟨_, closed, reads⟩

theorem reads_of_resolve {settings : Settings} {arguments : List String}
    {catalogue : Catalogue} {before after : Ledger}
    (resolved : Catalogue.resolve settings arguments before =
      .ok catalogue after) :
    ∃ final, Reads settings 1 0 .named .start (arguments.flatMap Text.tokens)
      .empty final catalogue := by
  rcases complete_of_resolve resolved with ⟨final, _, reads⟩
  exact ⟨final, reads⟩

end PkgConfig
