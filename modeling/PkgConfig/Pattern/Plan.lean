import PkgConfig.CharSet.Spelling
import Std.Data.HashMap

namespace PkgConfig.Pattern

/-! Patterns are searched for by automata on bytes. Plans say what an automaton is
built from, and so how much memory it takes. -/

/-! ## Extents -/

inductive Direction where
  | forwards
  | backwards
  deriving DecidableEq, Repr

structure Extent where
  states : Nat
  extra : Nat
  deriving DecidableEq, Repr

namespace Extent

def empty : Extent := ⟨0, 0⟩

def add (left right : Extent) : Extent :=
  ⟨left.states + right.states, left.extra + right.extra⟩

def times (count : Nat) (extent : Extent) : Extent :=
  ⟨count * extent.states, count * extent.extra⟩

def stateSize : Nat := 32

def stepSize : Nat := 8

def wayOutSize : Nat := 4

def state : Extent := ⟨1, 0⟩

def fork (ways : Nat) : Extent := ⟨1, ways * wayOutSize⟩

def wayOut : Extent := ⟨0, wayOutSize⟩

def branching (steps : Nat) : Extent := ⟨1, steps * stepSize⟩

def size (extent : Extent) : Nat := extent.states * stateSize + extent.extra

def maxSize : Nat := 10485760

def isTooLarge (extent : Extent) : Bool := maxSize < extent.size

end Extent

/-! ## Sets beyond ASCII -/

/-- What has been built of an automaton while a set is laid out. States go by their
numbers. Those for the set are also known by what they lead to, and are used again
where the same is needed. -/
structure Layout where
  extent : Extent
  /-- How many states can be known at a time. One is known at a place that what
  it leads to decides, and it drives out the one that was known there. -/
  places : Nat
  known : Std.HashMap Nat (List Nat × Nat)

namespace Layout

def start (places : Nat) (extent : Extent) : Layout := ⟨extent, places, ∅⟩

def place (layout : Layout) (key : List Nat) : Nat :=
  let mixed := key.foldl
    (fun mixed number => (mixed ^^^ number.toUInt64) * 1099511628211)
    (14695981039346656037 : UInt64)
  mixed.toNat % layout.places

def state (layout : Layout) (key : List Nat) (extent : Extent) :
    Nat × Layout :=
  let place := layout.place key
  let build (_ : Unit) : Nat × Layout :=
    let number := layout.extent.states
    (number, { layout with
      extent := layout.extent.add extent
      known := layout.known.insert place (key, number) })
  match layout.known[place]? with
  | some (other, number) =>
      if other = key then (number, layout) else build ()
  | none => build ()

def maxSpelling : Nat := 4

def forwards (last : Nat) :
    Nat → List CharSet.Spelling → Layout → Nat × Layout
  | 0, _, layout => (last, layout)
  | length + 1, spellings, layout =>
      let firsts := CharSet.byFirst spellings
      let (key, layout) := firsts.foldl
        (fun (key, layout) ((low, high), laters) =>
          let (next, layout) :=
            if laters.all (·.isEmpty) then (last, layout)
            else forwards last length laters layout
          (next :: high :: low :: key, layout))
        ([], layout)
      layout.state key.reverse (.branching firsts.length)

def backwards (last : Nat) (layout : Layout) :
    CharSet.Spelling → Nat × Layout
  | [] => (last, layout)
  | (low, high) :: later =>
      let (next, layout) := layout.state [last, low, high] .state
      backwards next layout later

end Layout

/-- Build what reads the spellings of a set. Forwards, they share the states for
what they end with; backwards, those for what they begin with, and a fork leads to
each of them. -/
def Extent.spell (direction : Direction) (spellings : List CharSet.Spelling)
    (extent : Extent) : Extent :=
  match direction with
  | .forwards =>
      let last := extent.states
      (Layout.forwards last Layout.maxSpelling spellings
        (.start 10000 (extent.add .state))).2.extent
  | .backwards =>
      let last := extent.states + 1
      let layout := Layout.start 1000
        (extent.add ((Extent.fork spellings.length).add .state))
      (spellings.foldl
        (fun layout spelling => (layout.backwards last spelling).2)
        layout).extent

/-! ## Plans -/

inductive Plan where
  | fixed (extent : Extent)
  | spelled (direction : Direction) (spellings : List CharSet.Spelling)
  | both (first second : Plan)
  | times (count : Nat) (inner : Plan)

namespace Plan

def followedBy : Plan → Plan → Plan
  | fixed first, fixed second => fixed (first.add second)
  | fixed first, both (fixed second) rest => both (fixed (first.add second)) rest
  | both first second, fixed third =>
      both first (second.followedBy (fixed third))
  | first, second => both first second

def repeated (count : Nat) : Plan → Plan
  | fixed extent => fixed (extent.times count)
  | inner => times count inner

def buildTimes (build : Extent → Extent) : Nat → Extent → Extent
  | 0, extent => extent
  | count + 1, extent =>
      if extent.isTooLarge then extent
      else buildTimes build count (build extent)

def build : Plan → Extent → Extent
  | fixed more, extent => extent.add more
  | spelled direction spellings, extent => extent.spell direction spellings
  | both first second, extent => second.build (first.build extent)
  | times count inner, extent => buildTimes inner.build count extent

/-- The bytes that an automaton takes. Of one that takes too many it is only known
that they are too many. -/
def size (plan : Plan) : Nat := (plan.build .empty).size

def isTooLarge (plan : Plan) : Bool := (plan.build .empty).isTooLarge

end Plan

end PkgConfig.Pattern
