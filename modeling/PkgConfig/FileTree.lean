import PkgConfig.Loader

namespace PkgConfig

/-! A tree of files below one directory, which relative paths start from. -/

/-- A place in the tree: the names on the way to it, the innermost first. -/
abbrev Place := List String

structure FileTree where
  files : List (Place × String)
  directories : List Place

namespace FileTree

def empty : FileTree := ⟨[], []⟩

def names (path : String) : List String :=
  path.splitOn "/"

/-- Where names lead to from a place, with the places that are left again on the
way. No way leads out of the tree. -/
def lead (place : Place) (left : List Place) : List String → Place × List Place
  | [] => (place, left)
  | name :: rest =>
      if name = "" ∨ name = "." then lead place left rest
      else if name = ".." then lead place.tail (place :: left) rest
      else lead (name :: place) left rest

example : lead [] [] ["a", "b", "..", ".", "c"] =
    (["c", "a"], [["b", "a"]]) := by decide

def addFile (tree : FileTree) (path contents : String) : FileTree :=
  let (place, left) := lead [] [] (names path)
  ⟨(place, contents) :: tree.files, left ++ tree.directories⟩

def addDirectory (tree : FileTree) (path : String) : FileTree :=
  let (place, left) := lead [] [] (names path)
  { tree with directories := place :: left ++ tree.directories }

inductive Node where
  | file (contents : String)
  | directory

def node? (tree : FileTree) (place : Place) : Option Node :=
  match tree.files.lookup place with
  | some contents => some (.file contents)
  | none =>
      if tree.directories.any place.isSuffixOf ||
          tree.files.any (fun (other, _) => place.isSuffixOf other) then
        some .directory
      else
        none

/-! ## Walking a path -/

def maxNameBytes : Nat := 255

def maxPathBytes : Nat := 4096

/-- A directory that a walk comes through. Of the directories around the tree no
contents are known. -/
inductive Stop where
  | inside (place : Place)
  | around

inductive Target where
  | absent
  | failed (cause : ReadFailure)
  | file (contents : String)
  | directory (stop : Stop)

def Stop.parent : Stop → Stop
  | .inside (_ :: parent) => .inside parent
  | .inside [] => .around
  | .around => .around

def walk (tree : FileTree) (stop : Stop) : List String → Target
  | [] => .directory stop
  | name :: rest =>
      if name = "" ∨ name = "." then
        tree.walk stop rest
      else if name = ".." then
        tree.walk stop.parent rest
      else if maxNameBytes < name.utf8ByteSize then
        .failed .nameTooLong
      else
        match stop with
        | .around => .absent
        | .inside place =>
            match tree.node? (name :: place) with
            | none => .absent
            | some (.file contents) =>
                if rest.isEmpty then .file contents else .absent
            | some .directory => tree.walk (.inside (name :: place)) rest

def resolve (tree : FileTree) (path : String) : Target :=
  if path.contains '\x00' then .failed .nulInName
  else if path = "" then .absent
  else if maxPathBytes ≤ path.utf8ByteSize then .failed .nameTooLong
  else if path.startsWith "/" then tree.walk .around (names path)
  else tree.walk (.inside []) (names path)

def load (tree : FileTree) (path : String) : Reading :=
  match tree.resolve path with
  | .absent => .absent
  | .failed cause => .failed cause
  | .file contents => .contents contents
  | .directory _ => .failed .isDirectory

def list (tree : FileTree) (path : String) : List String :=
  match tree.resolve path with
  | .directory (.inside place) =>
      let found := tree.files.filterMap fun (other, _) =>
        match other with
        | name :: parent =>
            if parent = place ∧ Location.isMetadataFile name then
              some (name, ())
            else
              none
        | [] => none
      (Table.ofList found).keys
  | _ => []

def loader (tree : FileTree) : Loader where
  load := tree.load
  list := tree.list

end FileTree

end PkgConfig
