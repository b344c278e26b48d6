import PkgConfig.Pattern.Basic
import PkgConfig.Text.Utf8

namespace PkgConfig.Pattern

/-! What the texts that a pattern finds begin with, in bytes. If all that is found
begins with a few texts, and these are all there is to find, then it is enough to
look for them. -/

structure Beginning where
  bytes : List UInt8
  isWhole : Bool
  deriving DecidableEq, Repr

namespace Beginning

def unfinished (beginning : Beginning) : Beginning :=
  { beginning with isWhole := false }

def cut (length : Nat) (beginning : Beginning) : Beginning :=
  if beginning.bytes.length ≤ length then beginning
  else ⟨beginning.bytes.take length, false⟩

def followedBy (first second : Beginning) : Beginning :=
  ⟨first.bytes ++ second.bytes, second.isWhole⟩

/-- Put a beginning in front of others, unless the first of them has the same
bytes. It is whole then if both are. -/
def consDistinct (beginning : Beginning) : List Beginning → List Beginning
  | [] => [beginning]
  | next :: rest =>
      if beginning.bytes = next.bytes then
        ⟨beginning.bytes, beginning.isWhole && next.isWhole⟩ :: rest
      else
        beginning :: next :: rest

def distinct (beginnings : List Beginning) : List Beginning :=
  beginnings.foldr consDistinct []

def essentialFrom (earlier : List Beginning) : List Beginning → List Beginning
  | [] => earlier
  | beginning :: rest =>
      if earlier.any (·.bytes.isPrefixOf beginning.bytes) then
        essentialFrom earlier rest
      else
        essentialFrom (beginning :: earlier) rest

def essential (beginnings : List Beginning) : List Beginning :=
  (essentialFrom [] beginnings).reverse

example :
    essential [⟨[1], true⟩, ⟨[2, 3], true⟩, ⟨[1, 2], false⟩, ⟨[2], true⟩] =
      [⟨[1], true⟩, ⟨[2, 3], true⟩, ⟨[2], true⟩] := by decide

def commonBytes : List UInt8 → List UInt8 → List UInt8
  | byte :: rest, other :: others =>
      if byte = other then byte :: commonBytes rest others else []
  | _, _ => []

def shared : List Beginning → List UInt8
  | [] => []
  | first :: others =>
      others.foldl (fun common other => commonBytes common other.bytes)
        first.bytes

end Beginning

/-! ## All beginnings -/

/-- The beginnings of all that a pattern finds, those that it prefers first. Nothing
is said about them if they are too many. -/
abbrev Beginnings : Type := Option (List Beginning)

namespace Beginnings

def maxCharacters : Nat := 10

def maxRounds : Nat := 10

def maxLength : Nat := 100

def maxCount : Nat := 250

def start : Beginnings := some [⟨[], true⟩]

def ofText (text : List Char) : Beginnings :=
  some [Beginning.cut maxLength ⟨text.flatMap String.utf8EncodeChar, true⟩]

def ofSet (members : CharSet) : Beginnings :=
  if maxCharacters < members.size then
    none
  else
    some (members.toList.map fun member =>
      ⟨String.utf8EncodeChar member, true⟩)

def unfinished (beginnings : Beginnings) : Beginnings :=
  beginnings.map (·.map Beginning.unfinished)

def isSettled : Beginnings → Bool
  | none => true
  | some beginnings => !beginnings.any (·.isWhole)

def unsaid (first : List Beginning) : Beginnings :=
  if first.any (·.bytes.isEmpty) then none
  else some (first.map Beginning.unfinished)

def followedBy (first second : Beginnings) : Beginnings :=
  match first, second with
  | none, _ => none
  | some first, none => unsaid first
  | some first, some second =>
      if maxCount < first.length * second.length then
        unsaid first
      else
        let all := Beginning.distinct (first.flatMap fun beginning =>
          if beginning.isWhole then second.map beginning.followedBy
          else [beginning])
        some (all.map (Beginning.cut maxLength))

/-- The beginnings of one thing or another. If they are many, their first bytes
are all that is kept. -/
def besides : Beginnings → Beginnings → Beginnings
  | some left, some right =>
      let isMany (left right : List Beginning) : Bool :=
        maxCount < left.length + right.length
      if !isMany left right then
        some (Beginning.distinct (left ++ right))
      else
        let left := Beginning.distinct (left.map (Beginning.cut 4))
        let right := Beginning.distinct (right.map (Beginning.cut 4))
        if isMany left right then none
        else some (Beginning.distinct (left ++ right))
  | _, _ => none

def rounds (round : Beginnings) : Nat → Beginnings → Beginnings
  | 0, found => found
  | count + 1, found =>
      if found.isSettled then found
      else rounds round count (found.followedBy round)

def repeated (least : Nat) (most : Option Nat) (isGreedy : Bool)
    (round : Beginnings) : Beginnings :=
  if least = 0 then
    let round := if most = some 1 then round else round.unfinished
    if isGreedy then round.besides start else start.besides round
  else
    let found := rounds round (min least maxRounds) start
    if most = some least ∧ least ≤ maxRounds then found else found.unfinished

end Beginnings

/-! ## Beginnings of patterns -/

inductive Before where
  | followed (found : Beginnings)
  | branches (found : Beginnings)

namespace Before

def found : Before → Beginnings
  | followed found => found
  | branches found => found

def isSettled : Before → Bool
  | followed found => found.isSettled
  | branches found => found.isNone

def add (before : Before) (beginnings : Beginnings) : Beginnings :=
  match before with
  | followed found => found.followedBy beginnings
  | branches found => found.besides beginnings

end Before

def beginnings (before : Before) (pattern : Pattern) : Beginnings :=
  if before.isSettled then
    before.found
  else
    match pattern with
    | empty => before.add .start
    | literal text => before.add (.ofText text)
    | set _ members => before.add (.ofSet members)
    | look _ => before.add .start
    | capture _ inner => before.add (inner.beginnings (.followed .start))
    | repetition least most isGreedy inner =>
        before.add (.repeated least most isGreedy
          (inner.beginnings (.followed .start)))
    | sequence first second =>
        match before with
        | .followed found =>
            second.beginnings (.followed (first.beginnings (.followed found)))
        | .branches found =>
            found.besides (second.beginnings
              (.followed (first.beginnings (.followed .start))))
    | choice left right =>
        match before with
        | .branches found =>
            right.beginnings (.branches (left.beginnings (.branches found)))
        | .followed found =>
            found.followedBy (right.beginnings
              (.branches (left.beginnings (.branches (some [])))))

/-! ## The beginnings that are looked for -/

namespace Beginnings

def isCommon (byte : UInt8) : Bool :=
  0x80 ≤ byte ||
    "\n\r (),-./0129:_|abcdefghilmnoprstuvxy".toList.any
      (·.toNat == byte.toNat)

def isVeryCommon (byte : UInt8) : Bool :=
  0x80 ≤ byte || [0x20, 0x65, 0x74].contains byte

def isUseless (beginning : Beginning) : Bool :=
  match beginning.bytes with
  | [] => true
  | [byte] => isVeryCommon byte
  | _ => false

def shortenings : List (Nat × Nat) :=
  [(5, 10), (4, 10), (3, 64), (2, 64), (1, 10)]

def shorten (beginnings : List Beginning) :
    List (Nat × Nat) → List Beginning
  | [] => beginnings
  | (length, limit) :: rest =>
      if beginnings.length ≤ limit then beginnings
      else
        shorten (Beginning.essential (beginnings.map (Beginning.cut length)))
          rest

/-- Beginnings made short and few. Whole ones are kept as they are, unless that
makes them much better. -/
def improve (beginnings : List Beginning) : Beginnings :=
  let shorter := shorten beginnings shortenings
  if !beginnings.all (·.isWhole) then
    if shorter.any isUseless then none else some shorter
  else if shorter.isEmpty || shorter.any isUseless ||
      shorter.any (·.bytes.length ≤ 2) || 64 < shorter.length then
    some beginnings
  else
    some shorter

/-- The beginnings that are best looked for. A rare byte that all begin with is
enough, and so is a long text. -/
def chosen (beginnings : List Beginning) : Beginnings :=
  if beginnings.any (·.bytes.isEmpty) then
    none
  else
    let own := Beginning.essential beginnings
    let shared := Beginning.shared own
    let cutTo (length : Nat) : List Beginning :=
      Beginning.distinct (own.map (Beginning.cut length))
    let isSmall := own.all (·.isWhole) && own.length ≤ 16
    if 1 < beginnings.length && shared.length ≤ 3 &&
        shared.head?.any (!isCommon ·) then
      some (cutTo 1)
    else if 4 < shared.length || (1 < shared.length && !isSmall) then
      improve (cutTo shared.length)
    else
      improve own

end Beginnings

/-! ## Few texts -/

def isPlain : Pattern → Bool
  | empty => true
  | literal _ => true
  | set _ _ => true
  | look _ => false
  | capture _ _ => false
  | repetition _ _ _ inner => inner.isPlain
  | sequence first second => first.isPlain && second.isPlain
  | choice left right => left.isPlain && right.isPlain

def texts? (pattern : Pattern) : Option (List String) := do
  guard pattern.isPlain
  let found ← (pattern.beginnings (.followed .start)).bind Beginnings.chosen
  guard (!found.isEmpty && found.all (·.isWhole))
  return found.map fun beginning => Text.ofUtf8 beginning.bytes

example : (choiceOf [.literal ['l', 'i', 'b'], .literal ['b', 'i', 'n']]).texts? =
    some ["lib", "bin"] := by decide +kernel

example : (choiceOf [character 'x', sequenceOf [character 'x',
    repeated 20 (some 20) true (character 'y')]]).texts? = some ["x"] := by
  decide +kernel

end PkgConfig.Pattern
