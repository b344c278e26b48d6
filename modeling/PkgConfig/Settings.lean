import PkgConfig.Bindings
import PkgConfig.Field
import PkgConfig.Loader
import PkgConfig.Overflow
import PkgConfig.Run
import PkgConfig.SearchPath
import PkgConfig.Switches
import PkgConfig.Text.Encoding

namespace PkgConfig

/-! Settings are fixed for a run. They are chosen explicitly, taken from the
environment, or left at their defaults, in this order of precedence. -/

structure Settings where
  searchPath : SearchPath
  delimiter : Char
  systemIncludePath : String
  systemLibraryPath : String
  globals : Bindings
  switches : Switches
  maxTraversalDepth : Nat
  capacity : Nat
  loader : Loader
  /-- The order in which the fields of the file at a path are expanded. Of
  several faults in them, it decides which one is met. -/
  expansionOrder : String → FieldOrder

namespace Settings

def isOn (settings : Settings) (switch : Switch) : Bool :=
  settings.switches.isOn switch

def withSwitches (settings : Settings) (switches : Switches) : Settings :=
  { settings with switches := switches }

def freshLedger (settings : Settings) : Ledger := .fresh settings.capacity

end Settings

/-! ## Defaults -/

namespace Defaults

def delimiter : Char := ':'

def fixedPath : String :=
  "/usr/local/lib/pkgconfig:/usr/local/share/pkgconfig:/usr/lib/pkgconfig:/usr/share/pkgconfig"

def systemIncludePath : String := "/usr/include"

def systemLibraryPath : String := "/lib:/usr/lib"

/-- This reference is left to the reader of the output, so it is not encoded. -/
def topBuildDirectory : String := "$(top_builddir)"

def sysrootDirectory : String := "/"

def maxTraversalDepth : Nat := 2147483647

def capacity : Nat := 16777216

end Defaults

/-! ## Choices -/

abbrev Environment := Table String String

structure Choices where
  /-- Delimited lists of directories; the last list is searched first. -/
  withPaths : List String
  environmentPath : Option String
  fixedPath : Option String
  systemIncludePath : Option String
  systemLibraryPath : Option String
  topBuildDirectory : Option String
  sysrootDirectory : Option String
  delimiter : Option Char
  definitions : List (String × String)
  switches : Switches
  definePrefix : Option Bool
  keepSystemCflags : Option Bool
  keepSystemLibs : Option Bool
  maxTraversalDepth : Option Nat
  capacity : Option Nat

namespace Choices

def none : Choices where
  withPaths := []
  environmentPath := .none
  fixedPath := .none
  systemIncludePath := .none
  systemLibraryPath := .none
  topBuildDirectory := .none
  sysrootDirectory := .none
  delimiter := .none
  definitions := []
  switches := .none
  definePrefix := .none
  keepSystemCflags := .none
  keepSystemLibs := .none
  maxTraversalDepth := .none
  capacity := .none

def orVariable (choice : Option String) (environment : Environment)
    (name : String) : Option String :=
  match choice with
  | some text => some text
  | .none => environment.find? name

def searchPath (choices : Choices) (environmentPath fixedPath : String)
    (delimiter : Char) : SearchPath :=
  let chosen := choices.withPaths.foldl
    (fun path text => SearchPath.prependDelimited path text delimiter)
    SearchPath.empty
  (chosen.addDelimited environmentPath delimiter).addDelimited fixedPath
    delimiter

/-- Complete the choices. A variable that allows system flags counts by its
presence, whatever its value. -/
def settings (choices : Choices) (environment : Environment)
    (loader : Loader) : Settings :=
  let delimiter := choices.delimiter.getD Defaults.delimiter
  let environmentPath :=
    (orVariable choices.environmentPath environment "PKG_CONFIG_PATH").getD ""
  let fixedPath :=
    (orVariable choices.fixedPath environment "PKG_CONFIG_LIBDIR").getD
      Defaults.fixedPath
  let systemIncludePath :=
    (orVariable choices.systemIncludePath environment
      "PKG_CONFIG_SYSTEM_INCLUDE_PATH").getD Defaults.systemIncludePath
  let systemLibraryPath :=
    (orVariable choices.systemLibraryPath environment
      "PKG_CONFIG_SYSTEM_LIBRARY_PATH").getD Defaults.systemLibraryPath
  let topBuildDirectory :=
    match orVariable choices.topBuildDirectory environment
        "PKG_CONFIG_TOP_BUILD_DIR" with
    | some directory => Text.encode directory
    | .none => Defaults.topBuildDirectory
  let sysrootDirectory :=
    (orVariable choices.sysrootDirectory environment
      "PKG_CONFIG_SYSROOT_DIR").getD Defaults.sysrootDirectory
  let keepSystemCflags := choices.keepSystemCflags.getD
    (environment.contains "PKG_CONFIG_ALLOW_SYSTEM_CFLAGS")
  let keepSystemLibs := choices.keepSystemLibs.getD
    (environment.contains "PKG_CONFIG_ALLOW_SYSTEM_LIBS")
  let definePrefix := choices.definePrefix.getD
    (choices.switches.isOn .definePrefix)
  { searchPath :=
      choices.searchPath environmentPath fixedPath delimiter
    delimiter := delimiter
    systemIncludePath := systemIncludePath
    systemLibraryPath := systemLibraryPath
    globals := Table.ofList
      ([("pc_path", fixedPath),
        ("pc_system_includedirs", systemIncludePath),
        ("pc_system_libdirs", systemLibraryPath),
        ("pc_sysrootdir", sysrootDirectory),
        ("pc_top_builddir", topBuildDirectory)] ++ choices.definitions)
    switches :=
      ((choices.switches.set .definePrefix definePrefix).set
        .keepSystemCflags keepSystemCflags).set
        .keepSystemLibs keepSystemLibs
    maxTraversalDepth :=
      choices.maxTraversalDepth.getD Defaults.maxTraversalDepth
    capacity := choices.capacity.getD Defaults.capacity
    loader := loader
    expansionOrder := fun _ => .listing }

end Choices

/-! ## Definitions on the command line -/

def parseDefinition (definition : String) : Except Error (String × String) :=
  let text := definition.toList
  match text.dropWhile (· != '=') with
  | _ :: value =>
      .ok (String.ofList (text.takeWhile (· != '=')), String.ofList value)
  | [] => .error (.invalidDefinition definition)

def appendDigit? (value : UInt64) (digit : Char) : Option UInt64 := do
  let tenfold ← checkedMul? value 10
  checkedAdd? tenfold (digit.toNat - '0'.toNat).toUInt64

theorem appendDigit?_eq_some_iff {value next : UInt64} {digit : Char}
    (isDigit : digit.isDigit = true) :
    appendDigit? value digit = some next ↔
      next.toNat = 10 * value.toNat + (digit.toNat - '0'.toNat) := by
  have small := Text.digit_lt_ten isDigit
  have word : (digit.toNat - '0'.toNat).toUInt64.toNat =
      digit.toNat - '0'.toNat := by
    rw [Nat.toUInt64_eq, UInt64.toNat_ofNat']
    omega
  have bound := next.toNat_lt
  simp only [appendDigit?, bind, Option.bind_eq_some_iff,
    checkedMul?_eq_some_iff, checkedAdd?_eq_some_iff, word]
  constructor
  · rintro ⟨tenfold, product, sum⟩
    rw [sum, product]
    exact congrArg (· + _) (Nat.mul_comm _ _)
  · intro number
    have product : 10 * value.toNat < UInt64.size := by
      rw [UInt64.size]
      omega
    refine ⟨.ofNatLT _ product, ?_, ?_⟩
    · rw [UInt64.toNat_ofNatLT]
      exact Nat.mul_comm _ _
    · rw [UInt64.toNat_ofNatLT, number]

/-- Read on with the number so far, until the limit is reached. Without a result,
a number on the way there is no 64-bit word. -/
def readDepth? (limit value : UInt64) : List Char → Option UInt64
  | [] => some value
  | character :: rest =>
      if character.isDigit then do
        let value ← appendDigit? value character
        if limit ≤ value then some limit else readDepth? limit value rest
      else
        readDepth? limit value rest

/-- The number that the digits of a text write, cut off at a limit. Other
characters are passed over. -/
def parseDepth? (text : String) (limit : UInt64) : Option UInt64 :=
  readDepth? limit 0 text.toList

example : parseDepth? "x12y3" 1000 = some 123 := by decide

example : parseDepth? "99999" 1000 = some 1000 := by decide

private theorem readDepth?_isSome {limit value : UInt64} (text : List Char)
    (room : limit.toNat * 10 ≤ UInt64.size)
    (fits : value.toNat * 10 + 9 < UInt64.size) :
    (readDepth? limit value text).isSome := by
  induction text generalizing value with
  | nil => rfl
  | cons character rest induction =>
      rw [readDepth?]
      split
      next digit =>
        have small := Text.digit_lt_ten digit
        have word : 10 * value.toNat + (character.toNat - '0'.toNat) <
            UInt64.size := by omega
        have appended :=
          (appendDigit?_eq_some_iff digit).mpr (UInt64.toNat_ofNatLT (h := word))
        rw [appended, Option.bind_eq_bind, Option.bind_some]
        split
        · rfl
        next below =>
          rw [UInt64.le_iff_toNat_le] at below
          exact induction (by omega)
      · exact induction fits

theorem parseDepth?_isSome {limit : UInt64} (text : String)
    (room : limit.toNat * 10 ≤ UInt64.size) :
    (parseDepth? text limit).isSome :=
  readDepth?_isSome text.toList room (by decide)

end PkgConfig
