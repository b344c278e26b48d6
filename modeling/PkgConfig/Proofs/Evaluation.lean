import Mathlib
import PkgConfig.FileTree
import PkgConfig.Proofs.RecursiveWalk

namespace PkgConfig

/-! Arguments are resolved by recursion alone. Without a stack to weigh, the
result can be computed. Mathlib is imported whole, since it holds the equations
by which library functions are unfolded then. -/

private theorem Resolve.push_apply (settings : Settings) (argument : String)
    (session : Session) :
    push settings argument session =
      RecursiveWalk.push settings argument session := by
  cases read : RecursiveWalk.readArgument settings session.resolution.position
      argument session <;>
    simp only [push, RecursiveWalk.push, RecursiveWalk.run_start, read]

private theorem Resolve.pushAll_eq_recursivePush (settings : Settings)
    (arguments : List String) :
    pushAll settings arguments =
      arguments.forM (RecursiveWalk.push settings) := by
  induction arguments with
  | nil => rfl
  | cons argument rest induction =>
      rw [pushAll, funext (push_apply settings argument), induction]
      rfl

theorem Resolve.pushAll_singleton (settings : Settings) (argument : String)
    (session : Session) :
    pushAll settings [argument] session =
      RecursiveWalk.push settings argument session := by
  simp only [pushAll, push_apply, bind, EStateM.bind]
  cases RecursiveWalk.push settings argument session <;> rfl

theorem Catalogue.resolve_singleton (settings : Settings) (argument : String) :
    resolve settings [argument] = fun ledger =>
      match RecursiveWalk.readArgument settings .start argument
        ⟨.empty, ledger⟩ with
      | .ok position session =>
          match Resolution.finish ⟨session.resolution.catalogue, position⟩ with
          | .ok catalogue => .ok catalogue session.ledger
          | .error error => .error error session.ledger
      | .error error session => .error error session.ledger := by
  funext ledger
  have start : Resolution.empty.position = .start := rfl
  simp only [resolve, Resolve.pushAll_singleton, RecursiveWalk.push, start]
  cases RecursiveWalk.readArgument settings .start argument
      ⟨.empty, ledger⟩ with
  | ok position session => rfl
  | error error session => rfl

def RecursiveWalk.resolve? (settings : Settings) (argument : String) :
    Option Catalogue :=
  match readArgument settings .start argument
      ⟨.empty, settings.freshLedger⟩ with
  | .ok position session =>
      match (Resolution.mk session.resolution.catalogue position).finish with
      | .ok catalogue => some catalogue
      | .error _ => none
  | .error .. => none

theorem Catalogue.resolve_of_resolve? {settings : Settings} {argument : String}
    {view : Catalogue → α} {shown : α}
    (computed : (RecursiveWalk.resolve? settings argument).map view =
      some shown) :
    ∃ catalogue after, Catalogue.resolve settings [argument]
        settings.freshLedger = .ok catalogue after ∧ view catalogue = shown := by
  rcases Option.map_eq_some_iff.mp computed with ⟨catalogue, found, seen⟩
  unfold RecursiveWalk.resolve? at found
  split at found
  next position session read =>
    split at found
    next finished =>
      cases found
      refine ⟨catalogue, session.ledger, ?_, seen⟩
      simp only [resolve_singleton, read, finished]
    · cases found
  · cases found

def RecursiveWalk.pushAll? (settings : Settings) (arguments : List String) :
    Option Catalogue :=
  match arguments.forM (push settings) ⟨.empty, settings.freshLedger⟩ with
  | .ok _ session => some session.resolution.catalogue
  | .error .. => none

theorem Resolve.pushAll_of_pushAll? {settings : Settings}
    {arguments : List String} {view : Catalogue → α} {shown : α}
    (computed : (RecursiveWalk.pushAll? settings arguments).map view =
      some shown) :
    ∃ after, pushAll settings arguments ⟨.empty, settings.freshLedger⟩ =
        .ok () after ∧ view after.resolution.catalogue = shown := by
  rcases Option.map_eq_some_iff.mp computed with ⟨catalogue, found, seen⟩
  unfold RecursiveWalk.pushAll? at found
  split at found
  next after pushed =>
    cases found
    rw [pushAll_eq_recursivePush]
    exact ⟨after, pushed, seen⟩
  · cases found

def RecursiveWalk.failure? (settings : Settings) (argument : String) :
    Option Error :=
  match readArgument settings .start argument
      ⟨.empty, settings.freshLedger⟩ with
  | .ok .. => none
  | .error error _ => some error

theorem Resolve.push_of_failure? {settings : Settings} {argument : String}
    {error : Error}
    (computed : RecursiveWalk.failure? settings argument = some error) :
    ∃ after, push settings argument ⟨.empty, settings.freshLedger⟩ =
      .error error after := by
  unfold RecursiveWalk.failure? at computed
  have start : Resolution.empty.position = .start := rfl
  simp only [push, start, RecursiveWalk.run_start]
  cases read : RecursiveWalk.readArgument settings .start argument
      ⟨.empty, settings.freshLedger⟩ with
  | ok position session =>
      simp only [read] at computed
      cases computed
  | error failure session =>
      simp only [read] at computed
      cases computed
      exact ⟨session, rfl⟩

/-- What an argument fails with behind others that can be resolved, and what is
in the catalogue then. -/
def RecursiveWalk.failureBehind? (settings : Settings)
    (arguments : List String) (argument : String) :
    Option (Error × Catalogue) :=
  match arguments.forM (push settings) ⟨.empty, settings.freshLedger⟩ with
  | .ok _ between =>
      match push settings argument between with
      | .ok .. => none
      | .error error after => some (error, after.resolution.catalogue)
  | .error .. => none

theorem Resolve.push_of_failureBehind? {settings : Settings}
    {arguments : List String} {argument : String} {error : Error}
    {view : Catalogue → α} {shown : α}
    (computed : (RecursiveWalk.failureBehind? settings arguments argument).map
      (Prod.map id view) = some (error, shown)) :
    ∃ between after,
      pushAll settings arguments ⟨.empty, settings.freshLedger⟩ =
        .ok () between ∧
      push settings argument between = .error error after ∧
      view after.resolution.catalogue = shown := by
  rcases Option.map_eq_some_iff.mp computed with ⟨failure, found, seen⟩
  unfold RecursiveWalk.failureBehind? at found
  rw [pushAll_eq_recursivePush]
  split at found
  next between pushed =>
    split at found
    · cases found
    next reason after failed =>
      cases found
      cases seen
      refine ⟨between, after, pushed, ?_, rfl⟩
      rw [push_apply]
      exact failed
  · cases found

/-! ## Directories of files -/

namespace FileTable

/-- A metadata file in the directory `/p`, with the fields that every one needs
and the given ones. -/
def metadataFile (name fields : String) : String × String :=
  ("/p/" ++ name ++ ".pc", "Name:\nVersion:\nDescription:\n" ++ fields)

def settings (choices : Choices) (files : List (String × String)) : Settings :=
  { choices with fixedPath := some "/p" }.settings .empty
    (FileTable.loader (Table.ofList files))

end FileTable

end PkgConfig
