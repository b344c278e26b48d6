import PkgConfig.Text.Character

namespace PkgConfig.Location

/-! Paths are plain text and never normalized. Both slashes separate the parts
of a path. -/

open Text

def directory (path : String) : String :=
  String.ofList
    ((path.toList.reverse.dropWhile (!isSeparator ·)).drop 1).reverse

def fileName (path : String) : String :=
  String.ofList (path.toList.reverse.takeWhile (!isSeparator ·)).reverse

example : directory "/p/a.pc" = "/p" ∧ fileName "/p/a.pc" = "a.pc" := by decide

example : directory "a.pc" = "" ∧ fileName "a.pc" = "a.pc" := by decide

def suffix : List Char := ['.', 'p', 'c']

/-- Whether a token names a metadata file instead of a package. The bare suffix
is the name of a package. -/
def isMetadataFile (token : String) : Bool :=
  suffix.isSuffixOf token.toList && token.toList != suffix

def realname (token : String) : String :=
  if isMetadataFile token then
    String.ofList ((fileName token).toList.dropLast.dropLast.dropLast)
  else
    token

example : realname "/tmp/foo/bar.pc" = "bar" := by decide

example : realname ".pc" = ".pc" := by decide

def metadataFile (directory realname : String) : String :=
  directory ++ "/" ++ realname ++ ".pc"

end PkgConfig.Location
