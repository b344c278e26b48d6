import PkgConfig.CommandLine.Reader
import PkgConfig.Emission
import PkgConfig.LogFilter
import PkgConfig.Resolution

namespace PkgConfig.CommandLine

/-! What the command line program answers. -/

def programName : String := "pkg-config"

def maxTraversalDepthLimit : UInt64 := 1000

/-- The limit leaves room for every number that is read on the way to it. -/
def maxTraversalDepth (text : String) : Nat :=
  ((parseDepth? text maxTraversalDepthLimit).get
    (parseDepth?_isSome text (by decide))).toNat

def usageLines : List String :=
  [programName ++ " " ++ Builtin.version,
    "usage: pkg-config [OPTIONS...] [PACKAGES...]",
    "  --cflags, --cflags-only-I, --cflags-only-other",
    "  --define-prefix, --dont-define-prefix",
    "  --define-variable=NAME=VALUE, --variable=NAME",
    "  --exists, --validate, --\x7batleast,exact,max\x7d-version=VERSION",
    "  --errors-to-stdout, --silence-errors",
    "  --keep-system-cflags, --keep-system-libs",
    "  --libs, --libs-only-L, --libs-only-l, --libs-only-other",
    "  --list-all, --list-package-names",
    "  --maximum-traverse-depth=N",
    "  --modversion",
    "  --msvc-syntax",
    "  --newlines",
    "  --static",
    "  --with-path=PATH",
    "  --debug",
    "  -h, --help, --version",
    "environment:",
    "  PKG_CONFIG_PATH",
    "  PKG_CONFIG_LIBDIR",
    "  PKG_CONFIG_TOP_BUILD_DIR",
    "  PKG_CONFIG_SYSTEM_INCLUDE_PATH",
    "  PKG_CONFIG_SYSTEM_LIBRARY_PATH",
    "  PKG_CONFIG_ALLOW_SYSTEM_CFLAGS",
    "  PKG_CONFIG_ALLOW_SYSTEM_LIBS",
    "  PKG_CONFIG_SYSROOT_DIR",
    "  PCMETA_LOG"]

def line (text : String) : String := text ++ "\n"

def usage : String := String.join (usageLines.map line)

/-! ## Settings -/

def switches (selection : Selection) : Switches :=
  let overridden := selection.versionOverride?.isSome
  let on : Switch → Bool
    | .linkStatic => selection.has .linkStatic
    | .msvcSyntax => selection.has .msvcSyntax
    | .skipRequires => selection.has .validate || overridden
    | .ignoreVersions => overridden
    | _ => false
  ⟨on⟩

def chosen? (selection : Selection) (name : OptionName) : Option Bool :=
  if selection.has name then some true else none

def choices (selection : Selection) : Except Error Choices := do
  let definitions ← (selection.values .defineVariable).mapM parseDefinition
  return { Choices.none with
    withPaths := selection.values .withPath
    definitions := definitions
    switches := switches selection
    definePrefix := selection.definePrefix?
    keepSystemCflags := chosen? selection .keepSystemCflags
    keepSystemLibs := chosen? selection .keepSystemLibs
    maxTraversalDepth :=
      (selection.value? .maximumTraverseDepth).map maxTraversalDepth }

/-! ## Output -/

/-- The listing of all packages. Names are padded to the longest one, as counted
in bytes. -/
def listing (packages : Table String Package) (described : Bool) : String :=
  let width := (packages.keys.map String.utf8ByteSize).foldl max 0
  String.join (packages.entries.map fun (realname, package) =>
    if described then
      let padding := String.ofList
        (List.replicate (width - realname.length) ' ')
      let name := Text.decode (package.field .name)
      let description := Text.decode (package.field .description)
      line s!"{realname}{padding} {name} - {description}"
    else
      line realname)

def versions (catalogue : Catalogue) : String :=
  String.join (catalogue.directPackages.map fun package =>
    line (Text.decode package.version))

def variableValues (settings : Settings) (name : String) (output : String) :
    List Package → Run String
  | [] => return output
  | package :: rest => do
      match ← package.value? settings name with
      | some value =>
          variableValues settings name (output ++ line (Text.decode value)) rest
      | none => variableValues settings name output rest

def addFlags (settings : Settings) (catalogue : Catalogue) (delimiter : Char)
    (flagClass : FlagClass) (filter : Option Filter) (rendering : Rendering) :
    Run Rendering := do
  let used ← Run.used
  let rendering ← flagClass.renderInto settings catalogue delimiter rendering
    filter
  Run.release used
  return rendering

def flags (settings : Settings) (selection : Selection)
    (catalogue : Catalogue) : Run String := do
  let cflags := selection.cflagsFilter?
  let libs := selection.libsFilter?
  let delimiter := if selection.has .newlines then '\n' else ' '
  let rendering ← addFlags settings catalogue delimiter .cflags cflags .empty
  let rendering ← addFlags settings catalogue delimiter .libs libs rendering
  return if cflags.isSome || libs.isSome then line rendering.text else ""

def checkOverride (selection : Selection) (catalogue : Catalogue) :
    Except Error Unit :=
  match selection.versionOverride? with
  | none => .ok ()
  | some (comparator, wanted) =>
      catalogue.directPackages.forM (·.checkVersion comparator wanted)

def query (settings : Settings) (selection : Selection) : Run String := do
  let catalogue ← Catalogue.resolve settings selection.packages
  Run.note (.resolved catalogue.size)
  match checkOverride selection catalogue with
  | .error error => throw error
  | .ok () =>
      let output :=
        if selection.has .modversion then versions catalogue else ""
      let output ← match selection.value? .printVariable with
        | some name =>
            variableValues settings name output catalogue.directPackages
        | none => pure output
      let flags ← flags settings selection catalogue
      return output ++ flags

def answer (selection : Selection) (environment : Environment)
    (loader : Loader) : Run String :=
  if selection.has .help then
    return usage
  else if selection.has .version then
    return line Builtin.version
  else if selection.has .atleastProgramVersion then
    return ""
  else
    match choices selection with
    | .error error => throw error
    | .ok choices => do
        let settings := choices.settings environment loader
        Run.note (.searchPath
          (settings.searchPath.toDelimited settings.delimiter))
        if selection.has .listAll || selection.has .listPackageNames then do
          let packages ← Package.scanAll settings
          return listing packages (selection.has .listAll)
        else
          query settings selection

/-! ## Outcome -/

structure Outcome where
  code : Nat
  stdout : String
  stderr : String
  journal : List Event

def logSpecification (selection : Selection) (environment : Environment) :
    String :=
  match environment.find? "PCMETA_LOG" with
  | some specification => specification
  | none =>
      if selection.has .debug ||
          environment.contains "PKG_CONFIG_DEBUG_SPEW" then "debug"
      else "warn"

def logged (filter : LogFilter) (journal : List Event) : String :=
  String.join ((journal.filterMap Event.line?).filterMap fun line =>
    if filter.accepts line then some line.render else none)

def diagnostic (message : String) : String :=
  line (programName ++ ": " ++ message)

/-- Run the program. Nothing but the diagnostic is printed on failure. -/
def execute (arguments : List String) (environment : Environment)
    (loader : Loader) : Outcome :=
  match parse arguments with
  | .error error => ⟨1, "", diagnostic (optionMessage error), []⟩
  | .ok selection =>
      let (filter, warnings) :=
        LogFilter.read (logSpecification selection environment)
      let warned := String.join (warnings.map line)
      match answer selection environment loader (.fresh Defaults.capacity) with
      | .ok output ledger =>
          let journal := ledger.journal
          ⟨0, output, warned ++ logged filter journal, journal⟩
      | .error error ledger =>
          let journal := (ledger.note (.failed error)).journal
          let log := warned ++ logged filter journal
          let message := diagnostic error.fullMessage
          if selection.isQuiet then ⟨1, "", log, journal⟩
          else if selection.has .errorsToStdout then
            ⟨1, message, log, journal⟩
          else
            ⟨1, "", log ++ message, journal⟩

end PkgConfig.CommandLine
