import PkgConfig.CharSet
import PkgConfig.Pattern.Fault
import PkgConfig.Pattern.Look

namespace PkgConfig

/-! A pattern says which texts are looked for. Patterns are built in one form:
neighbouring literals are one, sequences and choices are not nested, and what the
branches of a choice begin with alike comes before the choice. -/

/-- What a set was given as. Patterns tell sets of bytes from sets of
characters, even where these are the same. -/
inductive SetKind where
  | characters
  | bytes
  deriving DecidableEq, Repr

inductive Pattern where
  | empty
  | literal (text : List Char)
  | set (kind : SetKind) (members : CharSet)
  | look (look : Look)
  | capture (place : Pattern.Point) (inner : Pattern)
  | repetition (least : Nat) (most : Option Nat) (isGreedy : Bool)
      (inner : Pattern)
  | sequence (first second : Pattern)
  | choice (left right : Pattern)
  deriving DecidableEq, Repr

namespace Pattern

/-! ## Sets -/

def nothing : Pattern := .set .bytes .empty

def character (character : Char) : Pattern := .literal [character]

def memberOf (kind : SetKind) (members : CharSet) : Pattern :=
  if members.ranges.isEmpty then
    nothing
  else
    match members.single? with
    | some single => character single
    | none => .set kind members

/-! ## Sequences -/

def prepend (part rest : Pattern) : Pattern :=
  match part, rest with
  | empty, rest => rest
  | part, empty => part
  | literal text, literal later => literal (text ++ later)
  | literal text, sequence (literal later) others =>
      sequence (literal (text ++ later)) others
  | part, rest => sequence part rest

def followedBy : Pattern → Pattern → Pattern
  | sequence first second, rest => first.prepend (second.followedBy rest)
  | part, rest => part.prepend rest

def sequenceOf (parts : List Pattern) : Pattern :=
  parts.foldr followedBy .empty

def parts : Pattern → List Pattern
  | sequence first second => first.parts ++ second.parts
  | other => [other]

def isSequence : Pattern → Bool
  | sequence _ _ => true
  | _ => false

/-! ## Repetitions -/

def isAlwaysEmpty : Pattern → Bool
  | empty => true
  | literal _ => false
  | set _ _ => false
  | look _ => true
  | capture _ inner => inner.isAlwaysEmpty
  | repetition _ _ _ inner => inner.isAlwaysEmpty
  | sequence first second => first.isAlwaysEmpty && second.isAlwaysEmpty
  | choice left right => left.isAlwaysEmpty && right.isAlwaysEmpty

/-- Repetitions that come to nothing, or to a single round, are none. Of what is
always empty one round is enough. -/
def repeated (least : Nat) (most : Option Nat) (isGreedy : Bool)
    (inner : Pattern) : Pattern :=
  let (least, most) :=
    if inner.isAlwaysEmpty then (min least 1, some ((most.map (min 1)).getD 1))
    else (least, most)
  if most = some 0 then .empty
  else if least = 1 ∧ most = some 1 then inner
  else .repetition least most isGreedy inner

/-! ## Choices -/

def branches : Pattern → List Pattern
  | choice left right => left.branches ++ right.branches
  | other => [other]

def character? : Pattern → Option Char
  | literal [single] => some single
  | _ => none

def set? : Pattern → Option CharSet
  | set _ members => some members
  | _ => none

def setOf? (branches : List Pattern) : Option CharSet :=
  match branches.mapM character? with
  | some characters =>
      some (.ofRanges (characters.map fun member =>
        (member.toNat, member.toNat)))
  | none => (branches.mapM set?).map (·.foldl .union .empty)

def choiceAmong : List Pattern → Pattern
  | [] => nothing
  | [last] => last
  | first :: rest => .choice first (choiceAmong rest)

def joined (branches : List Pattern) : Pattern :=
  match branches with
  | _ :: _ :: _ =>
      match setOf? branches with
      | some members => memberOf .characters members
      | none => choiceAmong branches
  | _ => choiceAmong branches

def commonBeginning : List Pattern → List Pattern → List Pattern
  | first :: rest, other :: others =>
      if first = other then first :: commonBeginning rest others else []
  | _, _ => []

def commonParts (branches : List Pattern) : List Pattern :=
  match branches with
  | first :: second :: others =>
      if (first :: second :: others).all isSequence then
        (second :: others).foldl
          (fun common branch => commonBeginning common branch.parts) first.parts
      else
        []
  | _ => []

def choiceOf (patterns : List Pattern) : Pattern :=
  let branches := patterns.flatMap branches
  let common := commonParts branches
  if common.isEmpty then
    joined branches
  else
    let rests := branches.map fun branch =>
      sequenceOf (branch.parts.drop common.length)
    sequenceOf (common ++ [joined (rests.flatMap Pattern.branches)])

example : choiceOf [character 'a', character 'c', character 'b'] =
    .set .characters (.range 'a' 'c') := by decide +kernel

example :
    let digits : Pattern := .set .characters (.range '0' '9')
    choiceOf [sequenceOf [digits, character 'a', character 'b'],
      sequenceOf [digits, character 'c']] =
    sequenceOf [digits, .choice (.literal ['a', 'b']) (character 'c')] := by
  decide +kernel

end Pattern

end PkgConfig
