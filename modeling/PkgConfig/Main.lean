import PkgConfig.CommandLine.Program
import PkgConfig.Snapshot
import PkgConfig.Text.Utf8

/-! The command line program. -/

namespace PkgConfig.Main

def variableNames : List String :=
  ["PKG_CONFIG_PATH", "PKG_CONFIG_LIBDIR", "PKG_CONFIG_TOP_BUILD_DIR",
    "PKG_CONFIG_SYSTEM_INCLUDE_PATH", "PKG_CONFIG_SYSTEM_LIBRARY_PATH",
    "PKG_CONFIG_ALLOW_SYSTEM_CFLAGS", "PKG_CONFIG_ALLOW_SYSTEM_LIBS",
    "PKG_CONFIG_SYSROOT_DIR", "PKG_CONFIG_DEBUG_SPEW", "PCMETA_LOG"]

def readEnvironment : IO Environment := do
  let mut environment : Environment := .empty
  for name in variableNames do
    match ← IO.getEnv name with
    | some value => environment := environment.insert name value
    | none => pure ()
  return environment

/-! Codes of the system. Some calls report them negated. -/

def notDirectory : UInt32 := 20

def isDirectory : UInt32 := 21

def nameTooLong : UInt32 := 36

def hasCode (reported code : UInt32) : Bool :=
  reported == code || reported == 0 - code

/-- A path that goes through a file leads nowhere. -/
def readFailure (reported : UInt32) (details : String) : Reading :=
  if hasCode reported notDirectory then .absent
  else if hasCode reported isDirectory then .failed .isDirectory
  else if hasCode reported nameTooLong then .failed .nameTooLong
  else .failed (.refused details)

def readFile (path : String) : IO Reading := do
  if path.contains '\x00' then
    return .failed .nulInName
  match ← (IO.FS.readBinFile path).toBaseIO with
  | .ok bytes => return .contents (Text.ofUtf8 bytes.toList)
  | .error (.noFileOrDirectory ..) => return .absent
  | .error (.inappropriateType _ reported details)
  | .error (.invalidArgument _ reported details) =>
      return readFailure reported details
  | .error error => return .failed (.refused error.toString)

def readDirectory (directory : String) : IO (List String) := do
  let path := (← IO.currentDir).join directory
  match ← path.readDir.toBaseIO with
  | .error _ => return []
  | .ok entries =>
      let mut names : Table String Unit := .empty
      for entry in entries do
        if Location.isMetadataFile entry.fileName then
          unless ← entry.path.isDir do
            names := names.insert entry.fileName ()
      return names.keys

/-- Run on a snapshot until it holds everything that the run asks for. -/
partial def converse (arguments : List String) (environment : Environment)
    (snapshot : Snapshot) : IO CommandLine.Outcome := do
  let outcome := CommandLine.execute arguments environment snapshot.loader
  let wanted := snapshot.wanted outcome.journal
  if wanted.isEmpty then
    return outcome
  else
    let mut snapshot := snapshot
    for path in wanted.files do
      let reading ← readFile path
      snapshot := { snapshot with readings := snapshot.readings.insert path reading }
    for directory in wanted.directories do
      let names ← readDirectory directory
      snapshot :=
        { snapshot with listings := snapshot.listings.insert directory names }
    converse arguments environment snapshot

end PkgConfig.Main

def main (arguments : List String) : IO UInt32 := do
  let environment ← PkgConfig.Main.readEnvironment
  let outcome ← PkgConfig.Main.converse arguments environment .empty
  IO.print outcome.stdout
  IO.eprint outcome.stderr
  return outcome.code.toUInt32
