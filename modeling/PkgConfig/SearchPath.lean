import PkgConfig.Location
import PkgConfig.Text.Segment

namespace PkgConfig

structure SearchPath where
  directories : List String
  deriving DecidableEq, Repr

namespace SearchPath

def empty : SearchPath := ⟨[]⟩

/-- Append a directory. The empty name is not a directory. -/
def add (searchPath : SearchPath) (directory : String) : SearchPath :=
  if directory = "" then searchPath
  else ⟨searchPath.directories ++ [directory]⟩

def addDelimited (searchPath : SearchPath) (text : String)
    (delimiter : Char) : SearchPath :=
  (Text.segments (· == delimiter) text).foldl add searchPath

def ofDelimited (text : String) (delimiter : Char) : SearchPath :=
  empty.addDelimited text delimiter

def prependDelimited (searchPath : SearchPath) (text : String)
    (delimiter : Char) : SearchPath :=
  ⟨(ofDelimited text delimiter).directories ++ searchPath.directories⟩

def toDelimited (searchPath : SearchPath) (delimiter : Char) : String :=
  (String.singleton delimiter).intercalate searchPath.directories

def candidates (searchPath : SearchPath) (realname : String) : List String :=
  searchPath.directories.map (Location.metadataFile · realname)

example : (ofDelimited ":/a::/b:" ':').candidates "x" =
    ["/a/x.pc", "/b/x.pc"] := by decide

end SearchPath

end PkgConfig
