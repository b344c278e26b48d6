import PkgConfig.Pattern.Fault

namespace PkgConfig.Pattern

/-! What the text of a pattern says, part by part, with the place of each
part. -/

/-! ## Leaves -/

structure Literal where
  span : Span
  character : Char
  isByte : Bool
  deriving DecidableEq, Repr

inductive AssertionKind where
  | startLine
  | endLine
  | startText
  | endText
  | wordBoundary
  | notWordBoundary
  | wordStart
  | wordEnd
  | wordStartHalf
  | wordEndHalf
  deriving DecidableEq, Repr

inductive ShorthandKind where
  | digit
  | space
  | word
  deriving DecidableEq, Repr

structure Shorthand where
  span : Span
  kind : ShorthandKind
  negated : Bool
  deriving DecidableEq, Repr

structure Property where
  span : Span
  name : String
  isValued : Bool
  deriving DecidableEq, Repr

inductive Flag where
  | ignoreCase
  | multiLine
  | dotMatchesNewline
  | swapGreed
  | unicode
  | carriageReturn
  | ignoreSpace
  deriving DecidableEq, Repr

def Flag.ofLetter? : Char → Option Flag
  | 'i' => some .ignoreCase
  | 'm' => some .multiLine
  | 's' => some .dotMatchesNewline
  | 'U' => some .swapGreed
  | 'u' => some .unicode
  | 'R' => some .carriageReturn
  | 'x' => some .ignoreSpace
  | _ => none

/-- A letter in a list of flags. The one without a flag is the negation of those
that follow. -/
structure FlagItem where
  span : Span
  flag? : Option Flag
  deriving DecidableEq, Repr

def flagState? (flag : Flag) : List FlagItem → Option Bool
  | [] => none
  | ⟨_, none⟩ :: rest =>
      if rest.any (·.flag? == some flag) then some false else none
  | ⟨_, some other⟩ :: rest =>
      if other = flag then some true else flagState? flag rest

/-! ## Classes -/

inductive SetOperator where
  | intersection
  | difference
  | symmetricDifference
  deriving DecidableEq, Repr

inductive NamedClass where
  | alnum
  | alpha
  | ascii
  | blank
  | cntrl
  | digit
  | graph
  | lower
  | print
  | punct
  | space
  | upper
  | word
  | xdigit
  deriving DecidableEq, Repr

namespace NamedClass

def all : List NamedClass :=
  [.alnum, .alpha, .ascii, .blank, .cntrl, .digit, .graph, .lower, .print,
    .punct, .space, .upper, .word, .xdigit]

def name : NamedClass → String
  | .alnum => "alnum"
  | .alpha => "alpha"
  | .ascii => "ascii"
  | .blank => "blank"
  | .cntrl => "cntrl"
  | .digit => "digit"
  | .graph => "graph"
  | .lower => "lower"
  | .print => "print"
  | .punct => "punct"
  | .space => "space"
  | .upper => "upper"
  | .word => "word"
  | .xdigit => "xdigit"

def ofName? (text : String) : Option NamedClass :=
  all.find? fun named => named.name == text

end NamedClass

inductive ClassTree where
  | empty (span : Span)
  | literal (literal : Literal)
  | range (span : Span) (first last : Literal)
  | named (span : Span) (kind : NamedClass) (negated : Bool)
  | property (property : Property)
  | shorthand (shorthand : Shorthand)
  | bracket (span : Span) (negated : Bool) (inner : ClassTree)
  | union (span : Span) (items : List ClassTree)
  | operation (span : Span) (operator : SetOperator) (left right : ClassTree)

namespace ClassTree

def span : ClassTree → Span
  | .empty span => span
  | .literal leaf => leaf.span
  | .range span _ _ => span
  | .named span _ _ => span
  | .property leaf => leaf.span
  | .shorthand leaf => leaf.span
  | .bracket span _ _ => span
  | .union span _ => span
  | .operation span _ _ _ => span

def ofItems (span : Span) : List ClassTree → ClassTree
  | [] => .empty span
  | [item] => item
  | items => .union span items

end ClassTree

/-! ## Patterns -/

inductive Tree where
  | empty (span : Span)
  | flags (span : Span) (items : List FlagItem)
  | literal (literal : Literal)
  | dot (span : Span)
  | assertion (span : Span) (kind : AssertionKind)
  | property (property : Property)
  | shorthand (shorthand : Shorthand)
  | bracket (span : Span) (negated : Bool) (inner : ClassTree)
  | repetition (span : Span) (least : Nat) (most : Option Nat)
      (isGreedy : Bool) (inner : Tree)
  | group (span : Span) (isCapture : Bool) (items : List FlagItem)
      (inner : Tree)
  | sequence (span : Span) (parts : List Tree)
  | choice (span : Span) (branches : List Tree)

namespace Tree

def span : Tree → Span
  | .empty span => span
  | .flags span _ => span
  | .literal leaf => leaf.span
  | .dot span => span
  | .assertion span _ => span
  | .property leaf => leaf.span
  | .shorthand leaf => leaf.span
  | .bracket span _ _ => span
  | .repetition span _ _ _ _ => span
  | .group span _ _ _ => span
  | .sequence span _ => span
  | .choice span _ => span

def ofParts (span : Span) : List Tree → Tree
  | [] => .empty span
  | [part] => part
  | parts => .sequence span parts

def isRepeatable : Tree → Bool
  | .empty _ => false
  | .flags _ _ => false
  | _ => true

end Tree

/-! ## Nesting -/

mutual

def ClassTree.tooDeep? (room : Nat) : ClassTree → Option Span
  | .bracket span _ inner =>
      match room with
      | 0 => some span
      | room + 1 => inner.tooDeep? room
  | .union span items =>
      match room with
      | 0 => some span
      | room + 1 => ClassTree.tooDeepAmong? room items
  | .operation span _ left right =>
      match room with
      | 0 => some span
      | room + 1 => (left.tooDeep? room).or (right.tooDeep? room)
  | _ => none

def ClassTree.tooDeepAmong? (room : Nat) : List ClassTree → Option Span
  | [] => none
  | item :: rest =>
      (item.tooDeep? room).or (ClassTree.tooDeepAmong? room rest)

end

mutual

def Tree.tooDeep? (room : Nat) : Tree → Option Span
  | .bracket span _ inner =>
      match room with
      | 0 => some span
      | room + 1 => inner.tooDeep? room
  | .repetition span _ _ _ inner =>
      match room with
      | 0 => some span
      | room + 1 => inner.tooDeep? room
  | .group span _ _ inner =>
      match room with
      | 0 => some span
      | room + 1 => inner.tooDeep? room
  | .sequence span parts =>
      match room with
      | 0 => some span
      | room + 1 => Tree.tooDeepAmong? room parts
  | .choice span branches =>
      match room with
      | 0 => some span
      | room + 1 => Tree.tooDeepAmong? room branches
  | _ => none

def Tree.tooDeepAmong? (room : Nat) : List Tree → Option Span
  | [] => none
  | part :: rest => (part.tooDeep? room).or (Tree.tooDeepAmong? room rest)

end

end PkgConfig.Pattern
