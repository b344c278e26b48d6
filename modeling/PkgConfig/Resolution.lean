import PkgConfig.Catalogue
import PkgConfig.Discovery
import PkgConfig.Text.Segment

namespace PkgConfig

/-! Resolution reads requirement lists token by token. A package that is new
interrupts the list it was found in: its own requirements are read first. The
interrupted lists wait on a stack of frames. -/

/-- No more lists than this are ever open. -/
def maxFrames : Nat := 64

/-! ## Sessions -/

/-- Where a list of requirements stands: the package that an operator would
apply to, and the operator that waits for its version. -/
structure Position where
  last : Option Nat
  pending : Option Comparator
  deriving DecidableEq, Repr

def Position.start : Position := ⟨none, none⟩

/-- What has been resolved so far. The position carries over from one argument
to the next. -/
structure Resolution where
  catalogue : Catalogue
  position : Position

namespace Resolution

def empty : Resolution := ⟨.empty, .start⟩

def finish (resolution : Resolution) : Except Error Catalogue :=
  match resolution.position.pending with
  | some comparator => .error (.missingVersion comparator none)
  | none =>
      if resolution.catalogue.packages.isEmpty then .error .noPackages
      else .ok resolution.catalogue

end Resolution

structure Session where
  resolution : Resolution
  ledger : Ledger

/-- A resolution that fails keeps what it has put into the catalogue. -/
abbrev Resolve := EStateM Error Session

namespace Resolve

theorem bind_eq_ok_iff {first : Resolve α} {second : α → Resolve β} {value : β}
    {before after : Session} :
    (first >>= second) before = .ok value after ↔
      ∃ result between, first before = .ok result between ∧
        second result between = .ok value after := by
  simp only [bind, EStateM.bind]
  split
  next result between equal => simp [equal, and_assoc]
  next error between equal => simp [equal]

def ofRun (run : Run α) : Resolve α := fun session =>
  match run session.ledger with
  | .ok value ledger => .ok value { session with ledger := ledger }
  | .error error ledger => .error error { session with ledger := ledger }

def catalogue : Resolve Catalogue := fun session =>
  .ok session.resolution.catalogue session

def setCatalogue (catalogue : Catalogue) : Resolve Unit := fun session =>
  .ok () { session with
    resolution := { session.resolution with catalogue := catalogue } }

def setPosition (position : Position) : Resolve Unit := fun session =>
  .ok () { session with
    resolution := { session.resolution with position := position } }

end Resolve

/-! ## Frames -/

structure Frame where
  tokens : List String
  position : Position
  depth : Nat
  marks : Marks

namespace Frame

def ofField (package : Package) (field : Field) (depth : Nat)
    (marks : Marks) : Frame :=
  ⟨Text.tokens (package.field field), .start, depth, marks⟩

def ofArgument (argument : String) (position : Position) : Frame :=
  ⟨Text.tokens argument, position, 0, .named⟩

def size (frame : Frame) : Nat := frame.tokens.length + 1

end Frame

structure Walk where
  frame : Frame
  below : List Frame
  bounded : below.length < maxFrames

namespace Walk

def weight (walk : Walk) : StackWeight maxFrames :=
  .ofStack Frame.size maxFrames (walk.frame :: walk.below)

def start (argument : String) (position : Position) : Walk where
  frame := .ofArgument argument position
  below := []
  bounded := by decide

inductive Progress where
  | finished (position : Position)
  | continued (walk : Walk)

def checkVersion (settings : Settings) (last : Option Nat)
    (comparator : Comparator) (wanted : String) : Resolve Unit := do
  let catalogue ← Resolve.catalogue
  if settings.isOn .ignoreVersions then
    return
  else
    match last.bind catalogue.package? with
    | none => return
    | some package =>
        match package.checkVersion comparator wanted with
        | .ok () => return
        | .error error => throw error

/-- The end of a list below the argument. A waiting operator never gets its
version. -/
def closeList (frame : Frame) : Resolve Unit := do
  match frame.position.pending with
  | none => return
  | some comparator =>
      let catalogue ← Resolve.catalogue
      throw (.missingVersion comparator
        ((frame.position.last.bind catalogue.package?).map Package.realname))

def readsRequirements (settings : Settings) (depth : Nat) : Bool :=
  !settings.isOn .skipRequires && decide (depth < settings.maxTraversalDepth)

/-- Come back to a package in the catalogue. When it is exposed for the first
time, its requirements are read again to expose them too. -/
def revisit (settings : Settings) (frame : Frame) (below : List Frame)
    (bounded : below.length < maxFrames) (token : String) (id : Nat)
    (package : Package) : Resolve Progress := do
  let catalogue ← Resolve.catalogue
  if frame.marks.exposed && !package.marks.exposed then
    Resolve.ofRun (Run.note (.promoted package.realname))
    let promoted := catalogue.mark id ⟨false, true⟩
    Resolve.setCatalogue promoted
    if readsRequirements settings (frame.depth + 1) then
      if room : below.length + 1 < maxFrames then
        Resolve.setCatalogue (promoted.mergeMarks id frame.marks)
        return .continued
          ⟨.ofField package .requires (frame.depth + 1) frame.marks.indirect,
            frame :: below, room⟩
      else
        throw (.traversalTooDeep token)
    else
      Resolve.setCatalogue (promoted.mergeMarks id frame.marks)
      return .continued ⟨frame, below, bounded⟩
  else
    Resolve.setCatalogue (catalogue.mergeMarks id frame.marks)
    return .continued ⟨frame, below, bounded⟩

/-- Load a new package. Its requirements are read next, and after them its
private ones, which expose nothing. -/
def discover (settings : Settings) (frame : Frame) (below : List Frame)
    (bounded : below.length < maxFrames) (token : String) :
    Resolve Progress := do
  let package ← Resolve.ofRun (Package.find settings token)
  let catalogue ← Resolve.catalogue
  let id := catalogue.size
  let extended := catalogue.insert package
  let frame := { frame with position := ⟨some id, none⟩ }
  Resolve.setCatalogue extended
  if readsRequirements settings (frame.depth + 1) then
    if room : below.length + 2 < maxFrames then
      Resolve.setCatalogue (extended.mergeMarks id frame.marks)
      return .continued
        ⟨.ofField package .requires (frame.depth + 1) frame.marks.indirect,
          .ofField package .requiresPrivate (frame.depth + 1) .none ::
            frame :: below, room⟩
    else
      throw (.traversalTooDeep token)
  else
    Resolve.setCatalogue (extended.mergeMarks id frame.marks)
    return .continued ⟨frame, below, bounded⟩

def visit (settings : Settings) (frame : Frame) (below : List Frame)
    (bounded : below.length < maxFrames) (token : String) :
    Resolve Progress := do
  let catalogue ← Resolve.catalogue
  match catalogue.find? (Location.realname token) with
  | none => discover settings frame below bounded token
  | some id =>
      match catalogue.package? id with
      | none => return .continued ⟨frame, below, bounded⟩
      | some package =>
          revisit settings { frame with position := ⟨some id, none⟩ } below
            bounded token id package

def step (settings : Settings) : Walk → Resolve Progress
  | ⟨⟨[], position, _, _⟩, [], _⟩ => return .finished position
  | ⟨⟨[], position, depth, marks⟩, frame :: below, bounded⟩ => do
      closeList ⟨[], position, depth, marks⟩
      return .continued ⟨frame, below, Nat.lt_of_succ_lt bounded⟩
  | ⟨⟨token :: tokens, position, depth, marks⟩, below, bounded⟩ =>
      match position.pending with
      | some comparator => do
          checkVersion settings position.last comparator token
          return .continued ⟨⟨tokens, .start, depth, marks⟩, below, bounded⟩
      | none =>
          match Comparator.ofToken? token with
          | some comparator =>
              if position.last.isNone then
                throw (.unexpectedOperator token)
              else
                return .continued
                  ⟨⟨tokens, ⟨position.last, some comparator⟩, depth, marks⟩,
                    below, bounded⟩
          | none =>
              visit settings ⟨tokens, position, depth, marks⟩ below bounded
                token

/-! ## Termination

A step reads a token of the current list or closes it. Whatever is opened goes
on top, so the stack loses weight. -/

def Keeps (next : Walk) (tokens : List String) (below : List Frame) : Prop :=
  ∃ above kept, kept.tokens = tokens ∧
    next.frame :: next.below = above ++ kept :: below

theorem Keeps.less {next : Walk} {tokens : List String} {token : String}
    {below : List Frame} {position : Position} {depth : Nat} {marks : Marks}
    {bounded : below.length < maxFrames} (keeps : next.Keeps tokens below) :
    StackWeight.Less maxFrames next.weight
      (weight ⟨⟨token :: tokens, position, depth, marks⟩, below, bounded⟩) := by
  rcases keeps with ⟨above, kept, same, stack⟩
  rw [weight, stack]
  exact StackWeight.ofStack_replace_less above bounded
    (by simp [Frame.size, same])

private theorem keeps_of_revisit {settings : Settings} {frame : Frame}
    {below : List Frame} {bounded : below.length < maxFrames}
    {token : String} {id : Nat} {package : Package} {next : Walk}
    {before after : Session}
    (visited : revisit settings frame below bounded token id package before =
      .ok (.continued next) after) :
    next.Keeps frame.tokens below := by
  rcases Resolve.bind_eq_ok_iff.mp visited with ⟨catalogue, _, _, visited⟩
  split at visited
  · rcases Resolve.bind_eq_ok_iff.mp visited with ⟨_, _, _, visited⟩
    rcases Resolve.bind_eq_ok_iff.mp visited with ⟨_, _, _, visited⟩
    split at visited
    · split at visited
      · rcases Resolve.bind_eq_ok_iff.mp visited with ⟨_, _, _, visited⟩
        cases visited
        exact ⟨[_], frame, rfl, rfl⟩
      · cases visited
    · rcases Resolve.bind_eq_ok_iff.mp visited with ⟨_, _, _, visited⟩
      cases visited
      exact ⟨[], frame, rfl, rfl⟩
  · rcases Resolve.bind_eq_ok_iff.mp visited with ⟨_, _, _, visited⟩
    cases visited
    exact ⟨[], frame, rfl, rfl⟩

private theorem keeps_of_discover {settings : Settings} {frame : Frame}
    {below : List Frame} {bounded : below.length < maxFrames}
    {token : String} {next : Walk} {before after : Session}
    (visited : discover settings frame below bounded token before =
      .ok (.continued next) after) :
    next.Keeps frame.tokens below := by
  rcases Resolve.bind_eq_ok_iff.mp visited with ⟨package, _, _, visited⟩
  rcases Resolve.bind_eq_ok_iff.mp visited with ⟨catalogue, _, _, visited⟩
  rcases Resolve.bind_eq_ok_iff.mp visited with ⟨_, _, _, visited⟩
  split at visited
  · split at visited
    · rcases Resolve.bind_eq_ok_iff.mp visited with ⟨_, _, _, visited⟩
      cases visited
      exact ⟨[_, _], { frame with position := ⟨some catalogue.size, none⟩ },
        rfl, rfl⟩
    · cases visited
  · rcases Resolve.bind_eq_ok_iff.mp visited with ⟨_, _, _, visited⟩
    cases visited
    exact ⟨[], { frame with position := ⟨some catalogue.size, none⟩ },
      rfl, rfl⟩

private theorem keeps_of_visit {settings : Settings} {frame : Frame}
    {below : List Frame} {bounded : below.length < maxFrames}
    {token : String} {next : Walk} {before after : Session}
    (visited : visit settings frame below bounded token before =
      .ok (.continued next) after) :
    next.Keeps frame.tokens below := by
  rcases Resolve.bind_eq_ok_iff.mp visited with ⟨catalogue, _, _, visited⟩
  cases found : catalogue.find? (Location.realname token) with
  | none =>
      simp only [found] at visited
      exact keeps_of_discover visited
  | some id =>
      cases held : catalogue.package? id with
      | none =>
          simp only [found, held] at visited
          cases visited
          exact ⟨[], frame, rfl, rfl⟩
      | some package =>
          simp only [found, held] at visited
          have kept := keeps_of_revisit visited
          exact kept

theorem step_less {settings : Settings} {walk next : Walk}
    {before after : Session}
    (stepped : step settings walk before = .ok (.continued next) after) :
    StackWeight.Less maxFrames next.weight walk.weight := by
  rcases walk with ⟨⟨tokens, position, depth, marks⟩, below, bounded⟩
  cases tokens with
  | nil =>
      cases below with
      | nil => cases stepped
      | cons frame below =>
          rcases Resolve.bind_eq_ok_iff.mp stepped with ⟨_, _, _, finished⟩
          cases finished
          exact StackWeight.ofStack_pop_less bounded (Nat.succ_pos _)
  | cons token tokens =>
      have shrinks : ∀ {next : Walk}, next.Keeps tokens below →
          StackWeight.Less maxFrames next.weight
            (weight ⟨⟨token :: tokens, position, depth, marks⟩, below, bounded⟩) :=
        Keeps.less
      cases pending : position.pending with
      | some comparator =>
          simp only [step, pending] at stepped
          rcases Resolve.bind_eq_ok_iff.mp stepped with ⟨_, _, _, finished⟩
          cases finished
          exact shrinks ⟨[], _, rfl, rfl⟩
      | none =>
          cases operator : Comparator.ofToken? token with
          | some comparator =>
              simp only [step, pending, operator] at stepped
              split at stepped
              · cases stepped
              · cases stepped
                exact shrinks ⟨[], _, rfl, rfl⟩
          | none =>
              simp only [step, pending, operator] at stepped
              exact shrinks (keeps_of_visit stepped)

def run (settings : Settings) (walk : Walk) : Resolve Position := fun session =>
  match _stepped : step settings walk session with
  | .ok (.finished position) after => .ok position after
  | .ok (.continued next) after => run settings next after
  | .error error after => .error error after
termination_by walk.weight
decreasing_by exact step_less ‹_›

end Walk

/-- Resolve one argument of the user. The position is moved on only if the
whole argument could be read. -/
def Resolve.push (settings : Settings) (argument : String) : Resolve Unit :=
  fun session =>
    let walk := Walk.start argument session.resolution.position
    match Walk.run settings walk session with
    | .ok position after => Resolve.setPosition position after
    | .error error after => .error error after

def Resolve.pushAll (settings : Settings) : List String → Resolve Unit
  | [] => return
  | argument :: rest => do
      Resolve.push settings argument
      Resolve.pushAll settings rest

def Catalogue.resolve (settings : Settings) (arguments : List String) :
    Run Catalogue := fun ledger =>
  match Resolve.pushAll settings arguments ⟨.empty, ledger⟩ with
  | .ok () session =>
      match session.resolution.finish with
      | .ok catalogue => .ok catalogue session.ledger
      | .error error => .error error session.ledger
  | .error error session => .error error session.ledger

end PkgConfig
