namespace PkgConfig

inductive Switch where
  /-- Derive the prefix of a package from where its file is. -/
  | definePrefix
  | keepSystemCflags
  | keepSystemLibs
  | linkStatic
  | msvcSyntax
  | skipRequires
  | ignoreVersions
  deriving DecidableEq, Repr

def Switch.all : List Switch :=
  [.definePrefix, .keepSystemCflags, .keepSystemLibs, .linkStatic, .msvcSyntax,
    .skipRequires, .ignoreVersions]

structure Switches where
  isOn : Switch → Bool

namespace Switches

def none : Switches := ⟨fun _ => false⟩

def ofList (switches : List Switch) : Switches :=
  ⟨fun switch => switches.contains switch⟩

def union (left right : Switches) : Switches :=
  ⟨fun switch => left.isOn switch || right.isOn switch⟩

def without (left right : Switches) : Switches :=
  ⟨fun switch => left.isOn switch && !right.isOn switch⟩

def set (switches : Switches) (switch : Switch) (on : Bool) : Switches :=
  if on then switches.union (ofList [switch])
  else switches.without (ofList [switch])

def includes (left right : Switches) : Bool :=
  Switch.all.all fun switch => !right.isOn switch || left.isOn switch

def toList (switches : Switches) : List Switch :=
  Switch.all.filter switches.isOn

def bits (switches : Switches) : Nat :=
  Switch.all.foldr
    (fun switch rest => (switches.isOn switch).toNat + 2 * rest) 0

example : (ofList [.definePrefix, .ignoreVersions]).bits = 65 := by decide

end Switches

end PkgConfig
