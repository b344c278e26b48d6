import PkgConfig.Pattern.Beginning
import PkgConfig.Pattern.Reader
import PkgConfig.Pattern.Search
import PkgConfig.Pattern.Size

namespace PkgConfig.Pattern

/-! What the parts of a pattern mean under the flags that are in force. Classes
beyond ASCII are known by their ranges only: there are no tables of properties,
of words or of letter cases. -/

structure Flags where
  ignoreCase : Bool
  multiLine : Bool
  dotMatchesNewline : Bool
  swapGreed : Bool
  unicode : Bool
  carriageReturn : Bool
  deriving DecidableEq, Repr

namespace Flags

def initial : Flags where
  ignoreCase := false
  multiLine := false
  dotMatchesNewline := false
  swapGreed := false
  unicode := true
  carriageReturn := false

def change (flags : Flags) (items : List FlagItem) : Flags :=
  let state (flag : Flag) (current : Bool) : Bool :=
    (flagState? flag items).getD current
  { ignoreCase := state .ignoreCase flags.ignoreCase
    multiLine := state .multiLine flags.multiLine
    dotMatchesNewline := state .dotMatchesNewline flags.dotMatchesNewline
    swapGreed := state .swapGreed flags.swapGreed
    unicode := state .unicode flags.unicode
    carriageReturn := state .carriageReturn flags.carriageReturn }

def setKind (flags : Flags) : SetKind :=
  if flags.unicode then .characters else .bytes

end Flags

/-! ## Leaves -/

def Literal.value (flags : Flags) (literal : Literal) : Except Fault Char :=
  if !flags.unicode && literal.isByte && 0x80 ≤ literal.character.toNat then
    Cursor.fault .invalidUtf8 literal.span
  else
    .ok literal.character

def Literal.pattern (flags : Flags) (literal : Literal) :
    Except Fault Pattern := do
  let character ← literal.value flags
  if flags.ignoreCase then
    if flags.unicode then
      Cursor.fault .caseUnavailable literal.span
    else
      return .memberOf .bytes (CharSet.singleton character).withBothCases
  else
    return .character character

def dotSet (flags : Flags) : CharSet :=
  if flags.dotMatchesNewline then CharSet.empty.complement
  else if flags.carriageReturn then
    (CharSet.ofRanges [(10, 10), (13, 13)]).complement
  else (CharSet.singleton '\n').complement

def AssertionKind.look (flags : Flags) : AssertionKind → Look
  | .startLine =>
      if !flags.multiLine then .textStart
      else if flags.carriageReturn then .returnedLineStart
      else .lineStart
  | .endLine =>
      if !flags.multiLine then .textEnd
      else if flags.carriageReturn then .returnedLineEnd
      else .lineEnd
  | .startText => .textStart
  | .endText => .textEnd
  | .wordBoundary => .wordBoundary
  | .notWordBoundary => .notWordBoundary
  | .wordStart => .wordStart
  | .wordEnd => .wordEnd
  | .wordStartHalf => .wordStartHalf
  | .wordEndHalf => .wordEndHalf

def AssertionKind.isAboutWords : AssertionKind → Bool
  | .startLine | .endLine | .startText | .endText => false
  | _ => true

namespace NamedClass

def set : NamedClass → CharSet
  | .alnum => .ofRanges [(48, 57), (65, 90), (97, 122)]
  | .alpha => .ofRanges [(65, 90), (97, 122)]
  | .ascii => .ofRanges [(0, 127)]
  | .blank => .ofRanges [(9, 9), (32, 32)]
  | .cntrl => .ofRanges [(0, 31), (127, 127)]
  | .digit => .ofRanges [(48, 57)]
  | .graph => .ofRanges [(33, 126)]
  | .lower => .ofRanges [(97, 122)]
  | .print => .ofRanges [(32, 126)]
  | .punct => .ofRanges [(33, 47), (58, 64), (91, 96), (123, 126)]
  | .space => .ofRanges [(9, 13), (32, 32)]
  | .upper => .ofRanges [(65, 90)]
  | .word => .ofRanges [(48, 57), (65, 90), (95, 95), (97, 122)]
  | .xdigit => .ofRanges [(48, 57), (65, 70), (97, 102)]

end NamedClass

def ShorthandKind.named : ShorthandKind → NamedClass
  | .digit => .digit
  | .space => .space
  | .word => .word

/-- The set of a shorthand. Its complement would hold bytes that are no
characters. -/
def Shorthand.set (flags : Flags) (shorthand : Shorthand) :
    Except Fault CharSet :=
  if flags.unicode then
    Cursor.fault .shorthandUnavailable shorthand.span
  else if shorthand.negated then
    Cursor.fault .invalidUtf8 shorthand.span
  else
    .ok shorthand.kind.named.set

def Property.canonicalName (property : Property) : String :=
  let name := property.name.toList
  let isPrefixed := match name with
    | first :: second :: _ => first.toLower == 'i' && second.toLower == 's'
    | _ => false
  let own := if isPrefixed then name.drop 2 else name
  let ignored := [' ', '_', '-']
  String.ofList ((own.filter fun character =>
    character.toNat < 0x80 && !ignored.contains character).map Char.toLower)

def categoryNames : List String := ["cf", "sc", "lc"]

def Property.fault (flags : Flags) (property : Property) : Except Fault α :=
  if !flags.unicode then
    Cursor.fault .unicodeNotAllowed property.span
  else if !property.isValued &&
      categoryNames.contains property.canonicalName then
    Cursor.fault .propertyValueNotFound property.span
  else
    Cursor.fault .propertyNotFound property.span

/-! ## Classes -/

/-- A set of characters, and whether it is known to hold both cases of every
letter. Only what is built from nothing is known to. -/
structure ClassValue where
  set : CharSet
  isFolded : Bool

namespace ClassValue

def empty : ClassValue := ⟨.empty, true⟩

def ofSet (set : CharSet) : ClassValue := ⟨set, false⟩

def union (left right : ClassValue) : ClassValue :=
  ⟨left.set.union right.set, left.isFolded && right.isFolded⟩

def operate (operator : SetOperator) (left right : ClassValue) : ClassValue where
  set :=
    match operator with
    | .intersection => left.set.intersection right.set
    | .difference => left.set.difference right.set
    | .symmetricDifference => left.set.symmetricDifference right.set
  isFolded := left.isFolded && right.isFolded

def fold (flags : Flags) (span : Span) (value : ClassValue) :
    Except Fault ClassValue :=
  if !flags.ignoreCase then
    .ok value
  else if flags.unicode then
    if value.isFolded then .ok value
    else Cursor.fault .caseUnavailable span
  else
    .ok ⟨value.set.withBothCases, true⟩

def close (flags : Flags) (span : Span) (negated : Bool) (value : ClassValue) :
    Except Fault ClassValue := do
  let value ← value.fold flags span
  if !negated then
    return value
  else if flags.unicode then
    return { value with set := value.set.complement }
  else
    Cursor.fault .invalidUtf8 span

end ClassValue

def Literal.inClass (flags : Flags) (literal : Literal) :
    Except Fault Char := do
  let character ← literal.value flags
  if !flags.unicode && 0x80 ≤ character.toNat then
    Cursor.fault .unicodeNotAllowed literal.span
  else
    return character

mutual

def ClassTree.value (flags : Flags) : ClassTree → Except Fault ClassValue
  | .empty _ => .ok .empty
  | .literal leaf => do
      let character ← leaf.inClass flags
      return .ofSet (.singleton character)
  | .range _ first last => do
      let first ← first.inClass flags
      let last ← last.inClass flags
      return .ofSet (.range first last)
  | .named span kind negated =>
      (ClassValue.ofSet kind.set).close flags span negated
  | .property leaf => leaf.fault flags
  | .shorthand leaf => do
      let set ← leaf.set flags
      return .ofSet set
  | .bracket span negated inner => do
      let value ← inner.value flags
      value.close flags span negated
  | .union _ items => ClassTree.unionValue flags items
  | .operation _ operator left right => do
      let leftValue ← left.value flags
      let rightValue ← right.value flags
      let rightValue ← rightValue.fold flags right.span
      let leftValue ← leftValue.fold flags left.span
      return .operate operator leftValue rightValue

def ClassTree.unionValue (flags : Flags) :
    List ClassTree → Except Fault ClassValue
  | [] => .ok .empty
  | item :: rest => do
      let value ← item.value flags
      let others ← ClassTree.unionValue flags rest
      return value.union others

end

/-! ## Patterns -/

/-- A pattern with the flags that are in force after it, and whether it needs to
know which characters beyond ASCII are in words. -/
structure Meaning where
  pattern : Pattern
  flags : Flags
  needsWords : Bool

mutual

def Tree.meaning (flags : Flags) : Tree → Except Fault Meaning
  | .empty _ => .ok ⟨.empty, flags, false⟩
  | .flags _ items => .ok ⟨.empty, flags.change items, false⟩
  | .literal leaf => do
      let pattern ← leaf.pattern flags
      return ⟨pattern, flags, false⟩
  | .dot span =>
      if flags.unicode then
        .ok ⟨.memberOf .characters (dotSet flags), flags, false⟩
      else
        Cursor.fault .invalidUtf8 span
  | .assertion _ kind =>
      .ok ⟨.look (kind.look flags), flags, kind.isAboutWords && flags.unicode⟩
  | .property leaf => leaf.fault flags
  | .shorthand leaf => do
      let set ← leaf.set flags
      return ⟨.memberOf flags.setKind set, flags, false⟩
  | .bracket span negated inner => do
      let value ← inner.value flags
      let value ← value.close flags span negated
      return ⟨.memberOf flags.setKind value.set, flags, false⟩
  | .repetition _ least most isGreedy inner => do
      let meaning ← inner.meaning flags
      return { meaning with
        pattern := repeated least most (isGreedy != flags.swapGreed)
          meaning.pattern
        needsWords := meaning.needsWords && most != some 0 }
  | .group span isCapture items inner => do
      let meaning ← inner.meaning (flags.change items)
      let pattern :=
        if isCapture then .capture span.first meaning.pattern
        else meaning.pattern
      return ⟨pattern, flags, meaning.needsWords⟩
  | .sequence _ parts => do
      let (patterns, flags, needsWords) ← Tree.meanings flags parts
      return ⟨sequenceOf patterns, flags, needsWords⟩
  | .choice _ branches => do
      let (patterns, flags, needsWords) ← Tree.meanings flags branches
      return ⟨choiceOf patterns, flags, needsWords⟩

def Tree.meanings (flags : Flags) :
    List Tree → Except Fault (List Pattern × Flags × Bool)
  | [] => .ok ([], flags, false)
  | part :: rest => do
      let meaning ← part.meaning flags
      let (patterns, flags, needsWords) ← Tree.meanings meaning.flags rest
      return (meaning.pattern :: patterns, flags, meaning.needsWords || needsWords)

end

/-! ## Refusals -/

inductive Refusal where
  | faulty (text : String) (fault : Fault)
  | tooLarge
  | wordsUnknown
  deriving DecidableEq, Repr

def Refusal.message : Refusal → String
  | .faulty text fault => fault.report text
  | .tooLarge => s!"Compiled regex exceeds size limit of {Extent.maxSize} bytes."
  | .wordsUnknown => "error building NFA"

/-- What is searched for with an automaton. The one that reads backwards is built
last. -/
def Meaning.check (meaning : Meaning) : Except Refusal Unit :=
  if meaning.pattern.isTooLarge .forwards then .error .tooLarge
  else if meaning.needsWords then .error .wordsUnknown
  else if meaning.pattern.isTooLarge .backwards then .error .tooLarge
  else .ok ()

/-- The pattern that a text writes. Where it is enough to look for some texts,
their size does not matter. -/
def ofText (text : String) : Except Refusal Pattern := do
  let meaning ← ((Tree.ofText text).bind (Tree.meaning .initial)).mapError
    (Refusal.faulty text)
  match meaning.pattern.texts? with
  | some texts => return choiceAmong (texts.map (.literal ·.toList))
  | none =>
      if !meaning.pattern.isManyTexts then
        meaning.check
      return meaning.pattern

end PkgConfig.Pattern
