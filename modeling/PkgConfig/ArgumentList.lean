import PkgConfig.Argument
import Std.Data.HashMap

namespace PkgConfig

/-! Arguments are collected in order, repetitions included, and the list notes
for each unique argument which of its places counts. -/

inductive Placement where
  | excluded
  | position (index : Nat)
  deriving DecidableEq, Repr

structure ArgumentList where
  arguments : Array String
  placements : Std.HashMap String Placement

namespace ArgumentList

def empty : ArgumentList := ⟨#[], ∅⟩

def size (list : ArgumentList) : Nat := list.arguments.size

/-- The placements after an argument was put at a position. The first place of a
unique argument counts, for a library the last one. -/
def settle (placements : Std.HashMap String Placement) (argument : String)
    (position : Nat) : Std.HashMap String Placement :=
  if Argument.isUnique argument then
    match placements[argument]? with
    | none => placements.insert argument (.position position)
    | some _ =>
        if Argument.isLibrary argument then
          placements.insert argument (.position position)
        else
          placements
  else
    placements

def push : ArgumentList → String → ArgumentList
  | ⟨arguments, placements⟩, argument =>
      let placements := settle placements argument arguments.size
      ⟨arguments.push argument, placements⟩

def exclude (list : ArgumentList) (argument : String) : ArgumentList :=
  { list with placements := list.placements.insert argument .excluded }

def isExcluded (list : ArgumentList) (argument : String) : Bool :=
  list.placements[argument]? == some .excluded

def isPrinted (list : ArgumentList) (argument : String) (position : Nat) :
    Bool :=
  match list.placements[argument]? with
  | none => true
  | some (.position index) => index == position
  | some .excluded => false

def survivors (list : ArgumentList) : List String :=
  (list.arguments.toList.zipIdx.filter fun (argument, position) =>
    list.isPrinted argument position).map Prod.fst

end ArgumentList

/-! ## Rendering -/

/-- A line of arguments. The count spans all lists that were rendered into
it. -/
structure Rendering where
  text : String
  count : Nat
  deriving DecidableEq, Repr

namespace Rendering

def empty : Rendering := ⟨"", 0⟩

def addArgument (delimiter : Char) (msvc : Bool) (rendering : Rendering)
    (argument : String) : Rendering where
  text :=
    (if rendering.count = 0 then rendering.text
      else rendering.text.push delimiter) ++
    (if msvc then Argument.msvc argument else argument)
  count := rendering.count + 1

def add (rendering : Rendering) (delimiter : Char) (msvc : Bool)
    (list : ArgumentList) : Rendering :=
  list.survivors.foldl (addArgument delimiter msvc) rendering

end Rendering

def ArgumentList.render (list : ArgumentList) (delimiter : Char)
    (msvc : Bool) : String :=
  (Rendering.empty.add delimiter msvc list).text

end PkgConfig
