import PkgConfig.Proofs.Catalogue
import PkgConfig.Resolution

namespace PkgConfig

/-! The walk without its stack of frames. A list is read token by token, and the
requirements of a package are read where the package is met, by recursion.
Instead of a stack there is the number of lists that are open, the present one
included. -/

/-! ## The recursion -/

def Catalogue.requirements (catalogue : Catalogue) (id : Nat)
    (field : Field) : List String :=
  match catalogue.package? id with
  | some package => Text.tokens (package.field field)
  | none => []

namespace RecursiveWalk

def endList (position : Position) : Resolve Unit := do
  match position.pending with
  | none => return
  | some comparator =>
      let catalogue ← Resolve.catalogue
      throw (.missingVersion comparator
        ((position.last.bind catalogue.package?).map Package.realname))

def readNested (read : Position → String → Resolve Position)
    (tokens : List String) : Resolve Unit := do
  let position ← tokens.foldlM read .start
  endList position

mutual

/-- Read one token. An operator applies to the package in front of it, and the
next token is its version. -/
def readToken (settings : Settings) (opened depth : Nat) (marks : Marks)
    (position : Position) (token : String) : Resolve Position := do
  match position.pending with
  | some comparator =>
      Walk.checkVersion settings position.last comparator token
      return .start
  | none =>
  match Comparator.ofToken? token with
  | some comparator =>
      if position.last.isNone then throw (.unexpectedOperator token)
      else return ⟨position.last, some comparator⟩
  | none =>
      let catalogue ← Resolve.catalogue
      match catalogue.find? (Location.realname token) with
      | some id => revisit settings opened depth marks token id
      | none => discover settings opened depth marks token
termination_by (maxFrames - opened, 1)

/-- Mark a package of the catalogue. If that exposes it for the first time, its
requirements are read again, but not its private ones. -/
def revisit (settings : Settings) (opened depth : Nat) (marks : Marks)
    (token : String) (id : Nat) : Resolve Position := do
  let catalogue ← Resolve.catalogue
  let exposes := marks.exposed && !(catalogue.marksOf id).exposed
  if exposes then
    Resolve.ofRun (Run.note (.promoted (Location.realname token)))
  Resolve.setCatalogue (catalogue.mergeMarks id marks)
  if exposes && Walk.readsRequirements settings (depth + 1) then
    if room : opened + 1 ≤ maxFrames then
      readNested
        (readToken settings (opened + 1) (depth + 1) marks.indirect)
        (catalogue.requirements id .requires)
    else
      throw (.traversalTooDeep token)
  return ⟨some id, none⟩
termination_by (maxFrames - opened, 0)

/-- Load a package and append it to the catalogue. Its requirements are read
with the same marks, apart from naming; after them its private ones without
any. -/
def discover (settings : Settings) (opened depth : Nat) (marks : Marks)
    (token : String) : Resolve Position := do
  let package ← Resolve.ofRun (Package.find settings token)
  let catalogue ← Resolve.catalogue
  let id := catalogue.size
  let extended := catalogue.insert package
  Resolve.setCatalogue extended
  if Walk.readsRequirements settings (depth + 1) then
    if room : opened + 2 ≤ maxFrames then
      Resolve.setCatalogue (extended.mergeMarks id marks)
      readNested
        (readToken settings (opened + 2) (depth + 1) marks.indirect)
        (Text.tokens (package.field .requires))
      readNested
        (readToken settings (opened + 1) (depth + 1) .none)
        (Text.tokens (package.field .requiresPrivate))
    else
      throw (.traversalTooDeep token)
  else
    Resolve.setCatalogue (extended.mergeMarks id marks)
  return ⟨some id, none⟩
termination_by (maxFrames - opened, 0)

end

def readArgument (settings : Settings) (position : Position)
    (argument : String) : Resolve Position :=
  (Text.tokens argument).foldlM (readToken settings 1 0 .named) position

def push (settings : Settings) (argument : String) : Resolve Unit :=
  fun session =>
    match readArgument settings session.resolution.position argument session with
    | .ok position after => Resolve.setPosition position after
    | .error error after => .error error after

end RecursiveWalk

/-! ## Sequencing -/

namespace Resolve

theorem catalogue_bind (next : Catalogue → Resolve α) (session : Session) :
    (catalogue >>= next) session =
      next session.resolution.catalogue session := rfl

theorem setCatalogue_setCatalogue (first second : Catalogue)
    (next : Unit → Resolve α) :
    (setCatalogue first >>= fun _ => setCatalogue second >>= next) =
      setCatalogue second >>= next := rfl

@[simp] theorem throw_bind (error : Error) (next : α → Resolve β) :
    ((throw error : Resolve α) >>= next) = throw error := rfl

theorem bind_congr_of_ok {first : Resolve α} {left right : α → Resolve β}
    {before : Session}
    (agree : ∀ value after, first before = .ok value after →
      left value after = right value after) :
    (first >>= left) before = (first >>= right) before := by
  simp only [bind, EStateM.bind]
  split
  next value after equal => exact agree value after equal
  · rfl

end Resolve

/-! ## The stack

Running the walk on a list comes to reading the list by recursion and running on
with what waits below it. -/

namespace Walk

def proceed (settings : Settings) : Progress → Resolve Position
  | .finished position => return position
  | .continued next => run settings next

theorem run_eq_step (settings : Settings) (walk : Walk) :
    run settings walk = step settings walk >>= proceed settings := by
  funext session
  rw [run]
  simp only [bind, EStateM.bind]
  split <;> rename_i stepped <;> simp only [stepped] <;> rfl

private theorem run_end_argument (settings : Settings) (position : Position)
    (depth : Nat) (marks : Marks) (bounded : [].length < maxFrames) :
    run settings ⟨⟨[], position, depth, marks⟩, [], bounded⟩ =
      pure position := by
  rw [run_eq_step]
  rfl

end Walk

namespace RecursiveWalk

open Walk

private theorem bounded_of_cons {frame : Frame} {below : List Frame}
    (bounded : (frame :: below).length < maxFrames) :
    below.length < maxFrames := Nat.lt_of_succ_lt bounded

private theorem run_end_nested (settings : Settings) (position : Position)
    (depth : Nat) (marks : Marks) (frame : Frame) (below : List Frame)
    (bounded : (frame :: below).length < maxFrames) :
    run settings ⟨⟨[], position, depth, marks⟩, frame :: below, bounded⟩ =
      endList position >>= fun _ =>
        run settings ⟨frame, below, bounded_of_cons bounded⟩ := by
  rw [run_eq_step]
  simp only [step, bind_assoc, pure_bind]
  rfl

/-- A list on top of `height` others or more is read like a nested one. -/
def RunsNested (settings : Settings) (height : Nat) : Prop :=
  ∀ (tokens : List String) (depth : Nat) (marks : Marks) (frame : Frame)
    (below : List Frame) (bounded : (frame :: below).length < maxFrames),
    height < (frame :: below).length → marks.direct = false →
    run settings ⟨⟨tokens, .start, depth, marks⟩, frame :: below, bounded⟩ =
      readNested (readToken settings ((frame :: below).length + 1) depth marks)
        tokens >>= fun _ =>
        run settings ⟨frame, below, bounded_of_cons bounded⟩

private theorem revisit_proceed {settings : Settings} {frame : Frame}
    {below : List Frame} (bounded : below.length < maxFrames) (token : String)
    {id : Nat} {package : Package} {session : Session}
    (rooted : frame.marks.direct = true → below = [])
    (nested : RunsNested settings below.length)
    (named : package.realname = Location.realname token)
    (held : session.resolution.catalogue.package? id = some package) :
    (Walk.revisit settings { frame with position := ⟨some id, none⟩ } below
        bounded token id package >>= proceed settings) session =
      (revisit settings (below.length + 1) frame.depth frame.marks token id
        >>= fun position =>
          run settings ⟨{ frame with position := position }, below, bounded⟩)
        session := by
  rcases frame with ⟨tokens, position, depth, marks⟩
  have known : id < session.resolution.catalogue.size :=
    Catalogue.lt_size_iff.mpr ⟨package, held⟩
  have current : session.resolution.catalogue.marksOf id = package.marks := by
    simp [Catalogue.marksOf, held]
  have requirements : session.resolution.catalogue.requirements id .requires =
      Text.tokens (package.field .requires) := by
    simp [Catalogue.requirements, held]
  rw [revisit]
  simp only [Walk.revisit, bind_assoc, Resolve.catalogue_bind, current, named]
  by_cases exposes : (marks.exposed && !package.marks.exposed) = true
  · have exposing : marks.exposed = true := (Bool.and_eq_true_iff.mp exposes).1
    have merged := Catalogue.mergeMarks_mark session.resolution.catalogue id
      exposing known
    simp only [exposes, Bool.true_and, if_true, bind_assoc, requirements]
    apply Resolve.bind_congr_of_ok
    intro _ noted _
    by_cases reads : readsRequirements settings (depth + 1) = true
    · simp only [reads, if_true]
      by_cases room : below.length + 1 < maxFrames
      · have within : below.length + 1 + 1 ≤ maxFrames := room
        simp only [room, within, dif_pos, bind_assoc, pure_bind,
          Resolve.setCatalogue_setCatalogue, merged]
        apply Resolve.bind_congr_of_ok
        intro _ marked _
        exact congrFun (nested _ _ _ _ _ room (Nat.lt_succ_self _) rfl) marked
      · -- The stack is full, so this is not the argument and names nothing.
        have full : ¬ below.length + 1 + 1 ≤ maxFrames := room
        have indirect : marks.direct = false := by
          cases direct : marks.direct with
          | false => rfl
          | true => exact absurd (by simp [rooted direct, maxFrames]) room
        have single : marks = ⟨false, true⟩ := by
          cases marks
          simp_all
        have plain : session.resolution.catalogue.mergeMarks id marks =
            session.resolution.catalogue.mark id ⟨false, true⟩ := by
          rw [Catalogue.mergeMarks_of_indirect _ _ indirect, single]
        simp only [room, full, dif_neg, not_false_eq_true, Resolve.throw_bind,
          plain]
    · simp only [reads, Bool.false_eq_true, if_false, bind_assoc, pure_bind,
        Resolve.setCatalogue_setCatalogue, merged]
      rfl
  · simp only [exposes, Bool.false_eq_true, Bool.false_and,
      if_false, bind_assoc, pure_bind]
    rfl

private theorem discover_proceed {settings : Settings} {frame : Frame}
    {below : List Frame} (bounded : below.length < maxFrames) (token : String)
    (nested : RunsNested settings below.length) (session : Session) :
    (Walk.discover settings frame below bounded token >>= proceed settings)
        session =
      (discover settings (below.length + 1) frame.depth frame.marks token
        >>= fun position =>
          run settings ⟨{ frame with position := position }, below, bounded⟩)
        session := by
  rcases frame with ⟨tokens, position, depth, marks⟩
  rw [discover]
  simp only [Walk.discover, bind_assoc]
  apply Resolve.bind_congr_of_ok
  intro package loaded _
  simp only [Resolve.catalogue_bind]
  by_cases reads : readsRequirements settings (depth + 1) = true
  · simp only [reads, if_true]
    by_cases room : below.length + 2 < maxFrames
    · have within : below.length + 1 + 2 ≤ maxFrames := room
      simp only [room, within, dif_pos, bind_assoc, pure_bind,
        Resolve.setCatalogue_setCatalogue]
      apply Resolve.bind_congr_of_ok
      intro _ marked _
      have first := nested (Text.tokens (package.field .requires)) (depth + 1)
        marks.indirect
        (.ofField package .requiresPrivate (depth + 1) .none)
        (⟨tokens, ⟨some loaded.resolution.catalogue.size, none⟩, depth, marks⟩
          :: below) room (by simp only [List.length_cons]; omega) rfl
      have second := nested
        (Text.tokens (package.field .requiresPrivate)) (depth + 1) .none
        ⟨tokens, ⟨some loaded.resolution.catalogue.size, none⟩, depth, marks⟩
        below (Nat.lt_of_succ_lt room) (Nat.lt_succ_self _) rfl
      refine (congrFun first marked).trans ?_
      apply Resolve.bind_congr_of_ok
      intro _ finished _
      exact congrFun second finished
    · have full : ¬ below.length + 1 + 2 ≤ maxFrames := room
      simp only [room, full, dif_neg, not_false_eq_true, Resolve.throw_bind]
  · simp only [reads, Bool.false_eq_true, if_false, bind_assoc, pure_bind]
    rfl

private theorem run_list (settings : Settings) (tokens : List String)
    (position : Position) (depth : Nat) (marks : Marks) (below : List Frame)
    (bounded : below.length < maxFrames)
    (rooted : marks.direct = true → below = [])
    (nested : RunsNested settings below.length) :
    run settings ⟨⟨tokens, position, depth, marks⟩, below, bounded⟩ =
      tokens.foldlM (readToken settings (below.length + 1) depth marks) position
        >>= fun final =>
          run settings ⟨⟨[], final, depth, marks⟩, below, bounded⟩ := by
  induction tokens generalizing position with
  | nil => rw [List.foldlM_nil, pure_bind]
  | cons token tokens induction =>
      rw [List.foldlM_cons, bind_assoc]
      simp only [← induction]
      rw [run_eq_step, readToken]
      cases pending : position.pending with
      | some comparator =>
          simp only [step, pending, bind_assoc, pure_bind]
          rfl
      | none =>
          cases operator : Comparator.ofToken? token with
          | some comparator =>
              simp only [step, pending, operator]
              cases last : position.last with
              | none => rfl
              | some id => rfl
          | none =>
              simp only [step, pending, operator, visit, bind_assoc]
              apply funext
              intro session
              rw [Resolve.catalogue_bind, Resolve.catalogue_bind]
              cases found : session.resolution.catalogue.find?
                  (Location.realname token) with
              | none => exact discover_proceed bounded token nested session
              | some id =>
                  rcases Catalogue.package?_of_find? found with
                    ⟨package, held, named⟩
                  simp only [held]
                  have revisited := @revisit_proceed settings
                    ⟨tokens, position, depth, marks⟩ below bounded token
                  exact revisited rooted nested named held

/-- Every list above the argument is nested. The induction is on the room that is
left on the stack. -/
theorem runsNested (settings : Settings) (room height : Nat)
    (enough : maxFrames ≤ height + room) : RunsNested settings height := by
  induction room generalizing height with
  | zero =>
      intro _ _ _ _ _ bounded higher
      omega
  | succ room induction =>
      intro tokens depth marks frame below bounded higher indirect
      rw [run_list settings tokens .start depth marks (frame :: below) bounded
        (by simp [indirect]) (induction _ (by omega))]
      simp only [run_end_nested, readNested, bind_assoc]

theorem run_start (settings : Settings) (argument : String)
    (position : Position) :
    run settings (Walk.start argument position) =
      readArgument settings position argument := by
  have read := run_list settings (Text.tokens argument) position 0 .named []
    (by decide) (fun _ => rfl) (runsNested settings maxFrames 0 (by simp))
  simp only [run_end_argument, bind_pure] at read
  exact read

/-- Resolving with a stack of frames and resolving by recursion come to the same,
in what they fail with and in all that they leave behind. -/
theorem push_eq_recursivePush (settings : Settings) (argument : String) :
    Resolve.push settings argument = push settings argument := by
  funext session
  cases read : readArgument settings session.resolution.position argument
      session with
  | ok position after => simp only [Resolve.push, push, run_start, read]
  | error error after => simp only [Resolve.push, push, run_start, read]

end RecursiveWalk

end PkgConfig
