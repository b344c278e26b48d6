import PkgConfig.Argument
import PkgConfig.Version

namespace PkgConfig.CommandLine

/-! The options of the command line and what the given ones select. -/

inductive OptionName where
  | help
  | version
  | atleastProgramVersion
  | errorsToStdout
  | printErrors
  | shortErrors
  | uninstalled
  | silenceErrors
  | debug
  | listAll
  | listPackageNames
  | withPath
  | definePrefix
  | keepPrefix
  | maximumTraverseDepth
  | atleastVersion
  | exactVersion
  | maxVersion
  | existence
  | validate
  | modversion
  | defineVariable
  | printVariable
  | cflags
  | cflagsOnlyIncludeDirs
  | cflagsOnlyOther
  | libs
  | libsOnlyDirs
  | libsOnlyNames
  | libsOnlyOther
  | linkStatic
  | keepSystemCflags
  | keepSystemLibs
  | msvcSyntax
  | newlines
  deriving DecidableEq, Repr

namespace OptionName

def all : List OptionName :=
  [.help, .version, .atleastProgramVersion, .errorsToStdout, .printErrors,
    .shortErrors, .uninstalled, .silenceErrors, .debug, .listAll,
    .listPackageNames, .withPath, .definePrefix, .keepPrefix,
    .maximumTraverseDepth, .atleastVersion, .exactVersion, .maxVersion,
    .existence, .validate, .modversion, .defineVariable, .printVariable,
    .cflags, .cflagsOnlyIncludeDirs, .cflagsOnlyOther, .libs, .libsOnlyDirs,
    .libsOnlyNames, .libsOnlyOther, .linkStatic, .keepSystemCflags,
    .keepSystemLibs, .msvcSyntax, .newlines]

def long : OptionName → String
  | .help => "help"
  | .version => "version"
  | .atleastProgramVersion => "atleast-pkgconfig-version"
  | .errorsToStdout => "errors-to-stdout"
  | .printErrors => "print-errors"
  | .shortErrors => "short-errors"
  | .uninstalled => "uninstalled"
  | .silenceErrors => "silence-errors"
  | .debug => "debug"
  | .listAll => "list-all"
  | .listPackageNames => "list-package-names"
  | .withPath => "with-path"
  | .definePrefix => "define-prefix"
  | .keepPrefix => "dont-define-prefix"
  | .maximumTraverseDepth => "maximum-traverse-depth"
  | .atleastVersion => "atleast-version"
  | .exactVersion => "exact-version"
  | .maxVersion => "max-version"
  | .existence => "exists"
  | .validate => "validate"
  | .modversion => "modversion"
  | .defineVariable => "define-variable"
  | .printVariable => "variable"
  | .cflags => "cflags"
  | .cflagsOnlyIncludeDirs => "cflags-only-I"
  | .cflagsOnlyOther => "cflags-only-other"
  | .libs => "libs"
  | .libsOnlyDirs => "libs-only-L"
  | .libsOnlyNames => "libs-only-l"
  | .libsOnlyOther => "libs-only-other"
  | .linkStatic => "static"
  | .keepSystemCflags => "keep-system-cflags"
  | .keepSystemLibs => "keep-system-libs"
  | .msvcSyntax => "msvc-syntax"
  | .newlines => "newlines"

def ofLong? (text : String) : Option OptionName :=
  all.find? fun name => name.long == text

def ofShort? (letter : Char) : Option OptionName :=
  if letter == 'h' then some .help else none

def display (name : OptionName) : String := "--" ++ name.long

def takesValue : OptionName → Bool
  | .atleastProgramVersion | .withPath | .maximumTraverseDepth
  | .atleastVersion | .exactVersion | .maxVersion | .defineVariable
  | .printVariable => true
  | _ => false

def accumulates : OptionName → Bool
  | .withPath | .defineVariable => true
  | _ => false

def displaces : OptionName → List OptionName
  | .definePrefix => [.keepPrefix]
  | .keepPrefix => [.definePrefix]
  | .atleastVersion => [.exactVersion, .maxVersion]
  | .exactVersion => [.atleastVersion, .maxVersion]
  | .maxVersion => [.atleastVersion, .exactVersion]
  | .cflags => [.cflagsOnlyIncludeDirs, .cflagsOnlyOther]
  | .cflagsOnlyIncludeDirs => [.cflags, .cflagsOnlyOther]
  | .cflagsOnlyOther => [.cflags, .cflagsOnlyIncludeDirs]
  | .libs => [.libsOnlyDirs, .libsOnlyNames, .libsOnlyOther]
  | .libsOnlyDirs => [.libs, .libsOnlyNames, .libsOnlyOther]
  | .libsOnlyNames => [.libs, .libsOnlyDirs, .libsOnlyOther]
  | .libsOnlyOther => [.libs, .libsOnlyDirs, .libsOnlyNames]
  | _ => []

end OptionName

/-- An option as given. Options without a value carry the empty text. -/
structure GivenOption where
  name : OptionName
  value : String
  deriving DecidableEq, Repr

structure Selection where
  options : List GivenOption
  packages : List String
  deriving DecidableEq, Repr

namespace Selection

def empty : Selection := ⟨[], []⟩

def yields (earlier new : OptionName) : Bool :=
  (earlier == new && !new.accumulates) || new.displaces.contains earlier

def addOption (selection : Selection) (option : GivenOption) : Selection :=
  { selection with
    options := (selection.options.filter fun earlier =>
      !yields earlier.name option.name) ++ [option] }

def addPackage (selection : Selection) (argument : String) : Selection :=
  { selection with packages := selection.packages ++ [argument] }

def has (selection : Selection) (name : OptionName) : Bool :=
  selection.options.any (·.name == name)

def values (selection : Selection) (name : OptionName) : List String :=
  (selection.options.filter (·.name == name)).map GivenOption.value

def value? (selection : Selection) (name : OptionName) : Option String :=
  (selection.values name).getLast?

/-! ## What is asked for -/

def versionOverride? (selection : Selection) :
    Option (Comparator × String) :=
  match selection.value? .atleastVersion with
  | some version => some (.greaterOrEqual, version)
  | none =>
      match selection.value? .exactVersion with
      | some version => some (.equal, version)
      | none =>
          (selection.value? .maxVersion).map fun version =>
            (.lessOrEqual, version)

def cflagsFilter? (selection : Selection) : Option Filter :=
  if selection.has .cflagsOnlyIncludeDirs then some .includeDirs
  else if selection.has .cflagsOnlyOther then some .otherCflags
  else if selection.has .cflags then some .any
  else none

def libsFilter? (selection : Selection) : Option Filter :=
  if selection.has .libsOnlyDirs then some .libDirs
  else if selection.has .libsOnlyNames then some .libNames
  else if selection.has .libsOnlyOther then some .otherLibs
  else if selection.has .libs then some .any
  else none

def definePrefix? (selection : Selection) : Option Bool :=
  if selection.has .definePrefix then some true
  else if selection.has .keepPrefix then some false
  else none

def isQuiet (selection : Selection) : Bool :=
  selection.has .silenceErrors || selection.has .existence ||
    selection.has .validate || selection.versionOverride?.isSome

end Selection

end PkgConfig.CommandLine
