import PkgConfig.Pattern.Cursor
import PkgConfig.Pattern.Tree

namespace PkgConfig.Pattern

/-! What a backslash introduces. -/

namespace Escape

/-! ## Characters by number -/

def hexDigit? (character : Char) : Option Nat :=
  if '0' ≤ character ∧ character ≤ '9' then some (character.toNat - 48)
  else if 'a' ≤ character ∧ character ≤ 'f' then some (character.toNat - 87)
  else if 'A' ≤ character ∧ character ≤ 'F' then some (character.toNat - 55)
  else none

def isHexDigit (character : Char) : Bool := (hexDigit? character).isSome

def ofHexDigits? (digits : List Char) : Option Char :=
  let number := digits.foldl
    (fun number digit => number * 16 + (hexDigit? digit).getD 0) 0
  if number.isValidChar then some (Char.ofNat number) else none

example : ofHexDigits? ['2', '6', 'c', '4'] = some '⛄' ∧
    ofHexDigits? ['D', '8', '0', '0'] = none := by decide

def digitCount (letter : Char) : Nat :=
  if letter == 'x' then 2 else if letter == 'u' then 4 else 8

def readDigits : Nat → Cursor → Except Fault (List Char × Cursor)
  | 0, cursor => .ok ([], cursor)
  | count + 1, cursor =>
      match cursor.rest with
      | [] => Cursor.fault .escapeUnexpectedEnd cursor.here
      | digit :: _ =>
          if isHexDigit digit then do
            let (digits, later) ← readDigits count cursor.step
            return (digit :: digits, later)
          else
            Cursor.fault .escapeHexInvalidDigit cursor.current

def readBraced (first : Point) (cursor : Cursor) :
    Except Fault (Tree × Cursor) :=
  let (digits, later) := Cursor.gather isHexDigit cursor.step
  if later.isAtEnd then
    Cursor.fault .escapeUnexpectedEnd (later.since cursor.point)
  else if !later.isAt '\x7d' then
    Cursor.fault .escapeHexInvalidDigit later.current
  else
    let after := later.step
    if digits.isEmpty then
      Cursor.fault .escapeHexEmpty (after.since cursor.point)
    else
      match ofHexDigits? digits with
      | some character =>
          .ok (.literal ⟨after.since first, character, false⟩, after)
      | none =>
          Cursor.fault .escapeHexInvalid (later.since cursor.current.stop)

def readNumber (first : Point) (letter : Char) (cursor : Cursor) :
    Except Fault (Tree × Cursor) :=
  let digits := cursor.step
  if digits.isAt '\x7b' then
    readBraced first digits
  else do
    let (characters, after) ← readDigits (digitCount letter) digits
    match ofHexDigits? characters with
    | some character =>
        return (.literal ⟨after.since first, character, letter == 'x'⟩, after)
    | none => Cursor.fault .escapeHexInvalid (after.since digits.point)

/-! ## Properties -/

def readProperty (first : Point) (cursor : Cursor) :
    Except Fault (Tree × Cursor) :=
  let opening := cursor.step
  match opening.rest with
  | [] => Cursor.fault .escapeUnexpectedEnd opening.here
  | '\x7b' :: _ =>
      let (name, closing) := Cursor.gather (· != '\x7d') opening.step
      if closing.isAtEnd then
        Cursor.fault .escapeUnexpectedEnd closing.here
      else
        let after := closing.next
        let isValued := name.any fun character =>
          character == ':' || character == '='
        .ok (.property ⟨after.since first, String.ofList name, isValued⟩, after)
  | '\\' :: _ => Cursor.fault .propertyInvalid opening.current
  | letter :: _ =>
      let after := opening.step
      .ok (.property ⟨after.since first, String.singleton letter, false⟩, after)

/-! ## Word boundaries -/

def wordBoundary? : String → Option AssertionKind
  | "start" => some .wordStart
  | "end" => some .wordEnd
  | "start-half" => some .wordStartHalf
  | "end-half" => some .wordEndHalf
  | _ => none

def isBoundaryLetter (character : Char) : Bool :=
  character.isAlpha || character == '-'

/-- Read the kind of a word boundary between braces. What does not start with a
letter or a dash is no kind of boundary, but a count. -/
def readBoundary (first : Point) (cursor : Cursor) :
    Except Fault (Tree × Cursor) :=
  let plain : Tree × Cursor :=
    (.assertion (cursor.since first) .wordBoundary, cursor)
  if cursor.isAt '\x7b' then
    let contents := cursor.step
    if contents.isAtEnd then
      Cursor.fault .wordBoundaryUnexpectedEnd (contents.since first)
    else
      let (letters, closing) := Cursor.gather isBoundaryLetter contents
      if letters.isEmpty then
        .ok plain
      else if !closing.isAt '\x7d' then
        Cursor.fault .wordBoundaryUnclosed (closing.since cursor.point)
      else
        match wordBoundary? (String.ofList letters) with
        | some kind =>
            let after := closing.next
            .ok (.assertion (after.since first) kind, after)
        | none =>
            Cursor.fault .wordBoundaryUnrecognized
              (closing.since contents.point)
  else
    .ok plain

/-! ## Single characters -/

def standsForItself (character : Char) : Bool :=
  character.toNat < 0x80 && !character.isAlphanum && character != '<' &&
    character != '>'

def control? : Char → Option Char
  | 'a' => some '\x07'
  | 'f' => some '\x0c'
  | 't' => some '\t'
  | 'n' => some '\n'
  | 'r' => some '\r'
  | 'v' => some '\x0b'
  | _ => none

def shorthand? : Char → Option (ShorthandKind × Bool)
  | 'd' => some (.digit, false)
  | 'D' => some (.digit, true)
  | 's' => some (.space, false)
  | 'S' => some (.space, true)
  | 'w' => some (.word, false)
  | 'W' => some (.word, true)
  | _ => none

def assertion? : Char → Option AssertionKind
  | 'A' => some .startText
  | 'z' => some .endText
  | 'B' => some .notWordBoundary
  | '<' => some .wordStart
  | '>' => some .wordEnd
  | _ => none

def readLetter (span : Span) (letter : Char) (after : Cursor) :
    Except Fault (Tree × Cursor) :=
  if standsForItself letter then
    .ok (.literal ⟨span, letter, false⟩, after)
  else
    match control? letter, shorthand? letter, assertion? letter with
    | some character, _, _ => .ok (.literal ⟨span, character, false⟩, after)
    | none, some (kind, negated), _ =>
        .ok (.shorthand ⟨span, kind, negated⟩, after)
    | none, none, some kind => .ok (.assertion span kind, after)
    | none, none, none => Cursor.fault .escapeUnrecognized span

def read (cursor : Cursor) : Except Fault (Tree × Cursor) :=
  let first := cursor.point
  let announced := cursor.next
  match announced.rest with
  | [] => Cursor.fault .escapeUnexpectedEnd (announced.since first)
  | letter :: _ =>
      let after := announced.next
      if letter.isDigit then
        Cursor.fault .backreference (after.since first)
      else if letter == 'x' || letter == 'u' || letter == 'U' then
        readNumber first letter announced
      else if letter == 'p' || letter == 'P' then
        readProperty first announced
      else if letter == 'b' then
        readBoundary first after
      else
        readLetter (after.since first) letter after

end Escape

end PkgConfig.Pattern
