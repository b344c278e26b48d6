import PkgConfig.Package

namespace PkgConfig

/-- The packages of a run in the order in which they were first seen. A
package's id is its place in this order. -/
structure Catalogue where
  packages : List Package
  direct : List Nat

namespace Catalogue

def empty : Catalogue := ⟨[], []⟩

def size (catalogue : Catalogue) : Nat := catalogue.packages.length

def realnames (catalogue : Catalogue) : List String :=
  catalogue.packages.map Package.realname

def package? (catalogue : Catalogue) (id : Nat) : Option Package :=
  catalogue.packages[id]?

def find? (catalogue : Catalogue) (realname : String) : Option Nat :=
  catalogue.packages.zipIdx.foldl
    (fun found (package, id) =>
      if package.realname = realname then some id else found) none

def lookup? (catalogue : Catalogue) (realname : String) : Option Package :=
  (catalogue.find? realname).bind catalogue.package?

def insert (catalogue : Catalogue) (package : Package) : Catalogue :=
  { catalogue with packages := catalogue.packages ++ [package] }

def marksOf (catalogue : Catalogue) (id : Nat) : Marks :=
  match catalogue.package? id with
  | some package => package.marks
  | none => .none

def mark (catalogue : Catalogue) (id : Nat) (marks : Marks) : Catalogue :=
  { catalogue with
    packages := catalogue.packages.modify id fun package =>
      { package with marks := package.marks.union marks } }

/-- Add to the marks of a package. It joins the direct packages when it is
first marked as one. -/
def mergeMarks (catalogue : Catalogue) (id : Nat) (marks : Marks) :
    Catalogue :=
  let marked := catalogue.mark id marks
  if marks.direct && !(catalogue.marksOf id).direct then
    { marked with direct := catalogue.direct ++ [id] }
  else
    marked

def directPackages (catalogue : Catalogue) : List Package :=
  catalogue.direct.filterMap catalogue.package?

end Catalogue

end PkgConfig
