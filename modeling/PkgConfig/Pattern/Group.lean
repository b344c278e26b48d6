import PkgConfig.Pattern.Cursor
import PkgConfig.Pattern.Tree
import PkgConfig.Text.Alphabetic

namespace PkgConfig.Pattern

/-! What an opening parenthesis introduces. -/

inductive Opening where
  | flags (span : Span) (items : List FlagItem)
  | group (span : Span) (isCapture : Bool) (items : List FlagItem)
      (name : Option (String × Span))

namespace Opening

/-! ## Flags -/

structure FlagState where
  items : List FlagItem
  dangling : Option Span

def readFlag (state : FlagState) (cursor : Cursor) (letter : Char) :
    Except Fault FlagState := do
  let span := cursor.current
  let negates := letter == '-'
  let flag? ← match Flag.ofLetter? letter with
    | some flag => pure (some flag)
    | none =>
        if negates then pure none else Cursor.fault .flagUnrecognized span
  match state.items.find? (·.flag? == flag?) with
  | some earlier =>
      .error ⟨if negates then .flagRepeatedNegation else .flagDuplicate, span,
        some earlier.span⟩
  | none =>
      return ⟨state.items ++ [⟨span, flag?⟩], if negates then some span else none⟩

def flagTurn (state : FlagState) (cursor : Cursor) :
    Except Fault (Cursor.Turn FlagState (List FlagItem)) :=
  match cursor.rest with
  | [] => Cursor.fault .flagUnexpectedEnd cursor.here
  | letter :: _ =>
      if letter == ':' || letter == ')' then
        match state.dangling with
        | some span => Cursor.fault .flagDanglingNegation span
        | none => .ok (.done state.items cursor)
      else do
        let state ← readFlag state cursor letter
        return .again state cursor.next

def readFlags (cursor : Cursor) : Except Fault (List FlagItem × Cursor) :=
  Cursor.loop flagTurn
    (fun _ cursor => Cursor.fault .flagUnexpectedEnd cursor.here)
    ⟨[], none⟩ cursor

/-! ## Names -/

def isNameCharacter (isFirst : Bool) (character : Char) : Bool :=
  character == '_' || Text.isAlphabetic character ||
    (!isFirst &&
      (Text.isNumeric character || ['.', '[', ']'].contains character))

def nameTurn (name : List Char) (cursor : Cursor) :
    Except Fault (Cursor.Turn (List Char) (List Char)) :=
  match cursor.rest with
  | [] => Cursor.fault .groupNameUnexpectedEnd cursor.here
  | character :: _ =>
      if character == '>' then
        .ok (.done name cursor)
      else if isNameCharacter name.isEmpty character then
        .ok (.again (name ++ [character]) cursor.next)
      else
        Cursor.fault .groupNameInvalid cursor.current

def readName (cursor : Cursor) : Except Fault ((String × Span) × Cursor) := do
  let (name, closing) ← Cursor.loop nameTurn
    (fun _ cursor => Cursor.fault .groupNameUnexpectedEnd cursor.here)
    [] cursor
  if name.isEmpty then
    Cursor.fault .groupNameEmpty cursor.here
  else
    return ((String.ofList name, closing.since cursor.point), closing.next)

/-! ## Openings -/

def readFlagged (opening : Span) (inside cursor : Cursor) :
    Except Fault (Opening × Cursor) :=
  if cursor.isAtEnd then
    Cursor.fault .groupUnclosed opening
  else do
    let (items, closing) ← readFlags cursor
    let after := closing.next
    if closing.isAt ':' then
      return (.group opening false items none, after)
    else if items.isEmpty then
      Cursor.fault .repetitionMissing inside.here
    else
      return (.flags (after.since opening.first) items, after)

def lookAroundSigns : List String := ["?=", "?!", "?<=", "?<!"]

def read (cursor : Cursor) : Except Fault (Opening × Cursor) :=
  let opening := cursor.current
  let inside := cursor.step
  match lookAroundSigns.findSome? inside.past? with
  | some after => Cursor.fault .lookAround (after.since opening.first)
  | none =>
      match (inside.past? "?P<").or (inside.past? "?<") with
      | some start => do
          let (name, after) ← readName start
          return (.group opening true [] (some name), after)
      | none =>
          match inside.past? "?" with
          | some start => readFlagged opening inside start
          | none => .ok (.group opening true [] none, inside)

end Opening

end PkgConfig.Pattern
