import PkgConfig.Pattern.Basic
import PkgConfig.Pattern.Trie

namespace PkgConfig.Pattern

/-! The plans by which patterns are built: one automaton reads forwards, another
one backwards. -/

/-! ## What plans depend on -/

/-- The bytes of the shortest text that a pattern finds, if it is known. It is not
where there may be nothing to find. -/
def shortest? : Pattern → Option Nat
  | empty => some 0
  | literal text => some (text.foldl (fun size next => size + next.utf8Size) 0)
  | set _ members =>
      members.ranges.head?.map fun (first, _) => (Char.ofNat first).utf8Size
  | look _ => some 0
  | capture _ inner => inner.shortest?
  | repetition least _ _ inner => inner.shortest?.map (least * ·)
  | sequence first second => do
      let first ← first.shortest?
      let second ← second.shortest?
      return first + second
  | choice left right => do
      let left ← left.shortest?
      let right ← right.shortest?
      return min left right

def isAtEdge (direction : Direction) : Pattern → Bool
  | empty => false
  | literal _ => false
  | set _ _ => false
  | look condition =>
      match direction with
      | .forwards => condition == .textStart
      | .backwards => condition == .textEnd
  | capture _ inner => inner.isAtEdge direction
  | repetition least _ _ inner => least != 0 && inner.isAtEdge direction
  | sequence first second =>
      match direction with
      | .forwards =>
          first.isAtEdge direction ||
            (first.isAlwaysEmpty && second.isAtEdge direction)
      | .backwards =>
          second.isAtEdge direction ||
            (second.isAlwaysEmpty && first.isAtEdge direction)
  | choice left right => left.isAtEdge direction && right.isAtEdge direction

def literals? : Pattern → Option (List (List Char))
  | literal text => some [text]
  | choice left right => do
      let left ← left.literals?
      let right ← right.literals?
      return left ++ right
  | _ => none

def isChoice : Pattern → Bool
  | choice _ _ => true
  | _ => false

/-! ## Plans of parts -/

namespace Plan

def state : Plan := fixed .state

def fork : Plan := fixed (.fork 2)

def ofLiteral (text : List Char) : Plan :=
  fixed (text.foldl
    (fun extent next => extent.add (Extent.state.times next.utf8Size)) .empty)

def ofSet (direction : Direction) (members : CharSet) : Plan :=
  if members.isAscii then
    fixed (Extent.state.add (.branching members.ranges.length))
  else
    spelled direction members.spellings

def captured (direction : Direction) (inner : Plan) : Plan :=
  match direction with
  | .forwards => state.followedBy (inner.followedBy state)
  | .backwards => inner

def endless (least : Nat) (isNeverEmpty : Bool) (round : Plan) : Plan :=
  if least ≠ 0 then (repeated least round).followedBy fork
  else if isNeverEmpty then fork.followedBy round
  else round.followedBy (fork.followedBy (fork.followedBy state))

def bounded (least most : Nat) (round : Plan) : Plan :=
  let needed := if least = 0 then state else repeated least round
  if least = most then needed
  else if least = 0 ∧ most = 1 then fork.followedBy (round.followedBy state)
  else
    needed.followedBy (state.followedBy
      (repeated (most - least) (fork.followedBy round)))

/-- Branches. The fork that leads to them comes after the first two. -/
def ofBranches : List Plan → Plan
  | [] => state
  | [single] => single
  | first :: second :: others =>
      let fork := first.followedBy
        (second.followedBy (Plan.fork.followedBy state))
      others.foldl
        (fun plan branch =>
          plan.followedBy (branch.followedBy (fixed .wayOut)))
        fork

end Plan

/-! ## Plans of patterns -/

def joinPlans (direction : Direction) (pattern : Pattern)
    (plans : List Plan) : Plan :=
  match plans with
  | [single] => single
  | _ =>
      match pattern.literals? with
      | some texts => .fixed (Trie.extent direction texts)
      | none => .ofBranches plans

def plans (direction : Direction) : Pattern → List Plan
  | empty => [.state]
  | literal text => [.ofLiteral text]
  | set _ members => [.ofSet direction members]
  | look _ => [.state]
  | capture _ inner =>
      [.captured direction (inner.joinPlans direction (inner.plans direction))]
  | repetition least most _ inner =>
      let round := inner.joinPlans direction (inner.plans direction)
      match most with
      | none =>
          [.endless least (inner.shortest?.any (0 < ·)) round]
      | some most => [.bounded least most round]
  | sequence first second =>
      let first := first.joinPlans direction (first.plans direction)
      let second := second.joinPlans direction (second.plans direction)
      match direction with
      | .forwards => [first.followedBy second]
      | .backwards => [second.followedBy first]
  | choice left right => left.plans direction ++ right.plans direction

/-- The plan of an automaton. It first skips any bytes, unless the pattern is at
the edge of the text. -/
def plan (direction : Direction) (pattern : Pattern) : Plan :=
  let skipping : Plan :=
    if pattern.isAtEdge direction then .state
    else .fixed ((Extent.fork 2).add (Extent.state.add (.branching 1)))
  let own := pattern.joinPlans direction (pattern.plans direction)
  skipping.followedBy ((own.captured direction).followedBy .state)

def isTooLarge (direction : Direction) (pattern : Pattern) : Bool :=
  (pattern.plan direction).isTooLarge

def manyTexts : Nat := 3000

def isManyTexts (pattern : Pattern) : Bool :=
  pattern.isChoice && pattern.literals?.any (manyTexts ≤ ·.length)

example :
    let letters (count : Nat) : Pattern :=
      repeated count (some count) true (character 'a')
    (letters 327673).isTooLarge .forwards = false ∧
      (letters 327674).isTooLarge .forwards = true := by
  decide +kernel

end PkgConfig.Pattern
