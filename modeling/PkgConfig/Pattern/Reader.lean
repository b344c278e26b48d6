import PkgConfig.Pattern.Bracket
import PkgConfig.Pattern.Count
import PkgConfig.Pattern.Group

namespace PkgConfig.Pattern

/-! Reading the whole of a pattern. -/

namespace Reader

/-! ## Branches -/

structure Branches where
  first : Point
  closed : List Tree
  start : Point
  parts : List Tree

namespace Branches

def empty (start : Point) : Branches := ⟨start, [], start, []⟩

def push (branches : Branches) (part : Tree) : Branches :=
  { branches with parts := part :: branches.parts }

def current (branches : Branches) (stop : Point) : Tree :=
  .ofParts ⟨branches.start, stop⟩ branches.parts.reverse

def divide (branches : Branches) (stop next : Point) : Branches where
  first := branches.first
  closed := branches.current stop :: branches.closed
  start := next
  parts := []

def close (branches : Branches) (stop : Point) : Tree :=
  if branches.closed.isEmpty then branches.current stop
  else
    .choice ⟨branches.first, stop⟩
      (branches.current stop :: branches.closed).reverse

end Branches

/-! ## Groups -/

structure OpenGroup where
  span : Span
  isCapture : Bool
  items : List FlagItem
  before : Branches
  ignoredSpace : Bool

structure State where
  branches : Branches
  groups : List OpenGroup
  names : List (String × Span)

namespace State

def start : State := ⟨.empty .start, [], []⟩

def push (state : State) (part : Tree) : State :=
  { state with branches := state.branches.push part }

end State

def ignoresSpace (items : List FlagItem) (cursor : Cursor) : Bool :=
  (flagState? .ignoreSpace items).getD cursor.ignoresSpace

def addName (names : List (String × Span)) :
    Option (String × Span) → Except Fault (List (String × Span))
  | none => .ok names
  | some (name, span) =>
      match names.lookup name with
      | some earlier => .error ⟨.groupNameDuplicate, span, some earlier⟩
      | none => .ok ((name, span) :: names)

def openGroup (state : State) (cursor : Cursor) :
    Except Fault (State × Cursor) := do
  let (opening, after) ← Opening.read cursor
  match opening with
  | .flags span items =>
      return (state.push (.flags span items),
        { after with ignoresSpace := ignoresSpace items cursor })
  | .group span isCapture items name => do
      let names ← addName state.names name
      let group : OpenGroup :=
        ⟨span, isCapture, items, state.branches, cursor.ignoresSpace⟩
      return (⟨.empty after.point, group :: state.groups, names⟩,
        { after with ignoresSpace := ignoresSpace items cursor })

def closeGroup (state : State) (cursor : Cursor) :
    Except Fault (State × Cursor) :=
  match state.groups with
  | [] => Cursor.fault .groupUnopened cursor.current
  | group :: groups =>
      let after := cursor.next
      let tree := Tree.group (after.since group.span.first) group.isCapture
        group.items (state.branches.close cursor.point)
      .ok (⟨group.before.push tree, groups, state.names⟩,
        { after with ignoresSpace := group.ignoredSpace })

/-! ## Repetitions -/

def takePart (state : State) (cursor : Cursor) :
    Except Fault (Tree × State) :=
  match state.branches.parts with
  | [] => Cursor.fault .repetitionMissing cursor.here
  | part :: parts =>
      if part.isRepeatable then
        .ok (part, { state with branches := { state.branches with parts := parts } })
      else
        Cursor.fault .repetitionMissing cursor.here

def repetition (part : Tree) (count : Count) (isGreedy : Bool)
    (stop : Point) : Tree :=
  .repetition ⟨part.span.first, stop⟩ count.least count.most isGreedy part

def repeatBySign (state : State) (cursor : Cursor) (count : Count) :
    Except Fault (State × Cursor) := do
  let (part, state) ← takePart state cursor
  let (isGreedy, after) := Count.readGreed cursor.next
  return (state.push (repetition part count isGreedy after.point), after)

def repeatByCount (state : State) (cursor : Cursor) :
    Except Fault (State × Cursor) := do
  let (part, state) ← takePart state cursor
  let ((count, isGreedy), after) ← Count.read cursor
  return (state.push (repetition part count isGreedy after.point), after)

/-! ## Turns -/

def readPart (state : State) (part : Except Fault (Tree × Cursor)) :
    Except Fault (State × Cursor) := do
  let (part, after) ← part
  return (state.push part, after)

def read (state : State) (cursor : Cursor) (character : Char) :
    Except Fault (State × Cursor) :=
  match character with
  | '(' => openGroup state cursor
  | ')' => closeGroup state cursor
  | '|' =>
      let after := cursor.next
      .ok ({ state with
        branches := state.branches.divide cursor.point after.point }, after)
  | '[' => readPart state (Bracket.read cursor)
  | '?' => repeatBySign state cursor ⟨0, some 1⟩
  | '*' => repeatBySign state cursor ⟨0, none⟩
  | '+' => repeatBySign state cursor ⟨1, none⟩
  | '\x7b' => repeatByCount state cursor
  | '\\' => readPart state (Escape.read cursor)
  | '.' => .ok (state.push (.dot cursor.current), cursor.next)
  | '^' => .ok (state.push (.assertion cursor.current .startLine), cursor.next)
  | '$' => .ok (state.push (.assertion cursor.current .endLine), cursor.next)
  | _ =>
      .ok (state.push (.literal ⟨cursor.current, character, false⟩), cursor.next)

def finish (state : State) (cursor : Cursor) : Except Fault Tree :=
  match state.groups with
  | [] => .ok (state.branches.close cursor.point)
  | group :: _ => Cursor.fault .groupUnclosed group.span

def turn (state : State) (cursor : Cursor) :
    Except Fault (Cursor.Turn State Tree) :=
  if !cursor.isPastSpace then
    .ok (.again state cursor.skipSpace)
  else
    match cursor.rest with
    | [] => do
        let tree ← finish state cursor
        return .done tree cursor
    | character :: _ => do
        let (state, after) ← read state cursor character
        return .again state after

end Reader

def Tree.ofText (text : String) : Except Fault Tree := do
  let (tree, _) ← Cursor.loop Reader.turn Reader.finish .start (.start text)
  match tree.tooDeep? nestingLimit with
  | some span => Cursor.fault .nestingExceeded span
  | none => return tree

end PkgConfig.Pattern
