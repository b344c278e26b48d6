import PkgConfig.Error
import PkgConfig.Location
import PkgConfig.Table

namespace PkgConfig

/-! Files are read through a loader, so that the same run can work on a table,
on a tree of files, or on what has been read so far. -/

inductive Reading where
  | absent
  | contents (text : String)
  | failed (cause : ReadFailure)
  deriving DecidableEq, Repr

structure Loader where
  load : String → Reading
  list : String → List String

/-! ## Tables of files -/

abbrev FileTable := Table String String

namespace FileTable

/-- A directory is named by its path without separators at the end. -/
def trimSeparators (directory : String) : String :=
  String.ofList
    (directory.toList.reverse.dropWhile Text.isSeparator).reverse

def list (files : FileTable) (directory : String) : List String :=
  let directory := trimSeparators directory
  files.keys.filterMap fun path =>
    let name := Location.fileName path
    if Location.directory path = directory ∧ Location.isMetadataFile name then
      some name
    else
      none

def load (files : FileTable) (path : String) : Reading :=
  match files.find? path with
  | some text => .contents text
  | none => .absent

def loader (files : FileTable) : Loader where
  load := files.load
  list := files.list

end FileTable

end PkgConfig
