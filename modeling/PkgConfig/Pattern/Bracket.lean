import PkgConfig.Pattern.Escape

namespace PkgConfig.Pattern

/-! Classes of characters in brackets. Brackets may stand inside each other, and
operators combine what is on their two sides from left to right. -/

namespace Bracket

structure Items where
  span : Span
  items : List ClassTree

namespace Items

def start (cursor : Cursor) : Items := ⟨cursor.here, []⟩

def push (union : Items) (item : ClassTree) : Items where
  span :=
    ⟨if union.items.isEmpty then item.span.first else union.span.first,
      item.span.stop⟩
  items := item :: union.items

def close (union : Items) : ClassTree :=
  .ofItems union.span union.items.reverse

end Items

structure Open where
  span : Span
  negated : Bool
  operand : Option (SetOperator × ClassTree)
  items : Items

namespace Open

def push (bracket : Open) (item : ClassTree) : Open :=
  { bracket with items := bracket.items.push item }

def contents (bracket : Open) : ClassTree :=
  let right := bracket.items.close
  match bracket.operand with
  | none => right
  | some (operator, left) =>
      .operation ⟨left.span.first, right.span.stop⟩ operator left right

def operate (bracket : Open) (operator : SetOperator) (cursor : Cursor) :
    Open :=
  { bracket with
    operand := some (operator, bracket.contents)
    items := .start cursor }

end Open

structure State where
  inner : Open
  outer : List Open

namespace State

def push (state : State) (item : ClassTree) : State :=
  { state with inner := state.inner.push item }

def unclosed (state : State) : Except Fault α :=
  Cursor.fault .classUnclosed state.inner.span

end State

/-! ## Opening -/

def verbatim (cursor : Cursor) (character : Char) : Literal :=
  ⟨cursor.current, character, false⟩

/-- Read the dashes at the start of a class. They stand for themselves. -/
def readDashes (first : Point) (cursor : Cursor) :
    Except Fault (Items × Cursor) :=
  Cursor.loop
    (fun union cursor =>
      if cursor.isAt '-' then
        .ok (.again (union.push (.literal (verbatim cursor '-'))) cursor.step)
      else
        .ok (.done union cursor))
    (fun _ _ => Cursor.fault .classUnclosed ⟨first, first⟩)
    (Items.start cursor) cursor

/-- Read an opening bracket with what belongs to it. A closing bracket right
after it stands for itself. -/
def readOpen (cursor : Cursor) : Except Fault (Open × Cursor) := do
  let first := cursor.point
  let requireMore (cursor : Cursor) : Except Fault Unit :=
    if cursor.isAtEnd then Cursor.fault .classUnclosed (cursor.since first)
    else .ok ()
  let opened := cursor.step
  requireMore opened
  let negated := opened.isAt '^'
  let start := if negated then opened.step else opened
  requireMore start
  let (union, later) ← readDashes first start
  if union.items.isEmpty && later.isAt ']' then
    let union := union.push (.literal (verbatim later ']'))
    let after := later.step
    requireMore after
    return (⟨after.since first, negated, none, union⟩, after)
  else
    return (⟨later.since first, negated, none, union⟩, later)

/-! ## Items -/

def readNamed? (cursor : Cursor) : Option (ClassTree × Cursor) :=
  match cursor.rest with
  | '[' :: ':' :: body =>
      let negated := body.head? == some '^'
      let body := if negated then body.drop 1 else body
      let name := body.takeWhile (· != ':')
      match body.drop name.length with
      | ':' :: ']' :: _ =>
          (NamedClass.ofName? (String.ofList name)).map fun kind =>
            let length := name.length + (if negated then 5 else 4)
            let after := cursor.advance length
            (.named (after.since cursor.point) kind negated, after)
      | _ => none
  | _ => none

def readSingle (cursor : Cursor) (character : Char) :
    Except Fault (Tree × Cursor) :=
  if character == '\\' then Escape.read cursor
  else .ok (.literal (verbatim cursor character), cursor.next)

def toItem : Tree → Except Fault ClassTree
  | .literal leaf => .ok (.literal leaf)
  | .shorthand leaf => .ok (.shorthand leaf)
  | .property leaf => .ok (.property leaf)
  | other => Cursor.fault .classEscapeInvalid other.span

def toLiteral : Tree → Except Fault Literal
  | .literal leaf => .ok leaf
  | other => Cursor.fault .classRangeLiteral other.span

/-- Read a character or a range of them. A dash is the sign of a range, unless
the class ends or another dash follows. -/
def readItem (state : State) (cursor : Cursor) (character : Char) :
    Except Fault (ClassTree × Cursor) := do
  let (single, later) ← readSingle cursor character
  let after := later.skipSpace
  if after.isAtEnd then
    state.unclosed
  else if !after.isAt '-' || after.peek? == some ']' ||
      after.peek? == some '-' then
    let item ← toItem single
    return (item, after)
  else
    let upper := after.step
    match upper.rest with
    | [] => state.unclosed
    | character :: _ => do
        let (last, later) ← readSingle upper character
        let span : Span := ⟨single.span.first, last.span.stop⟩
        let first ← toLiteral single
        let last ← toLiteral last
        if first.character ≤ last.character then
          return (.range span first last, later)
        else
          Cursor.fault .classRangeInvalid span

/-! ## The whole class -/

def closeInner (state : State) (cursor : Cursor) : Cursor.Turn State Tree :=
  let after := cursor.next
  let span := after.since state.inner.span.first
  let negated := state.inner.negated
  let contents := state.inner.contents
  match state.outer with
  | [] => .done (.bracket span negated contents) after
  | next :: rest =>
      .again ⟨next.push (.bracket span negated contents), rest⟩ after

def operate (state : State) (cursor : Cursor) (operator : SetOperator) :
    Cursor.Turn State Tree :=
  let after := cursor.advance 2
  .again { state with inner := state.inner.operate operator after } after

def turn (state : State) (cursor : Cursor) :
    Except Fault (Cursor.Turn State Tree) :=
  if !cursor.isPastSpace then
    .ok (.again state cursor.skipSpace)
  else
    match cursor.rest with
    | [] => state.unclosed
    | '&' :: '&' :: _ => .ok (operate state cursor .intersection)
    | '-' :: '-' :: _ => .ok (operate state cursor .difference)
    | '~' :: '~' :: _ => .ok (operate state cursor .symmetricDifference)
    | ']' :: _ => .ok (closeInner state cursor)
    | '[' :: _ =>
        match readNamed? cursor with
        | some (item, after) => .ok (.again (state.push item) after)
        | none => do
            let (opened, after) ← readOpen cursor
            return .again ⟨opened, state.inner :: state.outer⟩ after
    | character :: _ => do
        let (item, after) ← readItem state cursor character
        return .again (state.push item) after

def read (cursor : Cursor) : Except Fault (Tree × Cursor) := do
  let (opened, after) ← readOpen cursor
  Cursor.loop turn (fun state _ => state.unclosed) ⟨opened, []⟩ after

end Bracket

end PkgConfig.Pattern
