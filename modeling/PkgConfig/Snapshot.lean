import PkgConfig.Journal
import PkgConfig.Loader

namespace PkgConfig

/-! A run without access to files can still be carried out on them: it is run
again and again on what has been read so far, until its journal asks for nothing
new. -/

structure Snapshot where
  readings : Table String Reading
  listings : Table String (List String)

namespace Snapshot

def empty : Snapshot where
  readings := .empty
  listings := .empty

/-- What has not been read counts as absent. -/
def loader (snapshot : Snapshot) : Loader where
  load path := (snapshot.readings.find? path).getD .absent
  list directory := (snapshot.listings.find? directory).getD []

structure Wanted where
  files : List String
  directories : List String
  deriving DecidableEq, Repr

def Wanted.isEmpty (wanted : Wanted) : Bool :=
  wanted.files.isEmpty && wanted.directories.isEmpty

def wanted (snapshot : Snapshot) (journal : List Event) : Wanted where
  files := journal.filterMap fun
    | .consulted path | .tried path =>
        if snapshot.readings.contains path then none else some path
    | _ => none
  directories := journal.filterMap fun
    | .listed directory =>
        if snapshot.listings.contains directory then none
        else some directory
    | _ => none

end Snapshot

end PkgConfig
