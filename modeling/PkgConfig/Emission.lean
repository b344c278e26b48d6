import PkgConfig.ArgumentList
import PkgConfig.Catalogue
import PkgConfig.Text.Word

namespace PkgConfig

/-! Flags are emitted by class, for the compiler or for the linker. -/

/-- The words of a field, read on after the words so far in reverse. Empty words
are dropped. -/
def fieldWords (realname : String) (words : List String) (text : List Char) :
    Run (List String) :=
  if _nonempty : text = [] then
    return words.reverse
  else do
    let word := Text.Word.ofText text
    if ← word.charge then
      let words :=
        if word.escaped.isEmpty then words
        else String.ofList word.escaped :: words
      fieldWords realname words word.rest
    else
      throw (.unmatchedQuote realname)
termination_by text.length
decreasing_by exact Text.Word.length_rest_ofText ‹_›

namespace ArgumentList

def appendField (list : ArgumentList) (package : Package) (field : Field)
    (filter : Filter) : Run ArgumentList := do
  let words ← fieldWords package.realname [] (package.field field).toList
  return (words.filter filter.accepts).foldl push list

def appendFields (list : ArgumentList) (package : Package) (filter : Filter) :
    List Field → Run ArgumentList
  | [] => return list
  | field :: rest => do
      let list ← list.appendField package field filter
      list.appendFields package filter rest

def directoryFlag (letter : Char) (directory : String) : List Char :=
  '-' :: letter :: (Text.encode directory).toList

/-- Exclude the flag for a directory. Only one that stays a single word can ever
match an argument. -/
def excludeDirectory (list : ArgumentList) (letter : Char)
    (directory : String) : Run ArgumentList := do
  let raw := directoryFlag letter directory
  Run.charge (Text.byteLength raw)
  let word := Text.Word.ofText raw
  if (← word.charge) && word.rest.isEmpty then
    let argument := String.ofList word.escaped
    Run.note (.excluded argument)
    return list.exclude argument
  else
    return list

structure Exclusion where
  list : ArgumentList
  failure : Option Error

def Exclusion.complete (exclusion : Exclusion) : Run ArgumentList :=
  match exclusion.failure with
  | none => return exclusion.list
  | some error => throw error

def excludeDirectories (list : ArgumentList) (letter : Char) :
    List String → Run Exclusion
  | [] => return ⟨list, none⟩
  | directory :: rest => do
      match ← Run.attempt (list.excludeDirectory letter directory) with
      | .ok list => list.excludeDirectories letter rest
      | .error error => return ⟨list, some error⟩

def excludeSystem (list : ArgumentList) (directories : String)
    (delimiter letter : Char) : Run Exclusion :=
  list.excludeDirectories letter
    ((Text.segments (· == delimiter) directories).filter (· != ""))

end ArgumentList

/-! ## Classes -/

inductive FlagClass where
  | cflags
  | libs
  deriving DecidableEq, Repr

namespace FlagClass

def directoryLetter : FlagClass → Char
  | .cflags => 'I'
  | .libs => 'L'

def keepSystem : FlagClass → Switch
  | .cflags => .keepSystemCflags
  | .libs => .keepSystemLibs

def systemDirectories (settings : Settings) : FlagClass → String
  | .cflags => settings.systemIncludePath
  | .libs => settings.systemLibraryPath

/-- The fields that a package contributes. The compiler sees the flags of every
package; the linker those of the interface, unless everything is linked in. -/
def fields (settings : Settings) (package : Package) : FlagClass → List Field
  | .cflags =>
      if settings.isOn .linkStatic then [.cflags, .cflagsPrivate]
      else [.cflags]
  | .libs =>
      if settings.isOn .linkStatic then [.libs, .libsPrivate]
      else if package.marks.exposed then [.libs]
      else []

def appendPackages (settings : Settings) (flagClass : FlagClass)
    (filter : Filter) (list : ArgumentList) :
    List Package → Run ArgumentList
  | [] => return list
  | package :: rest => do
      let list ← list.appendFields package filter
        (flagClass.fields settings package)
      appendPackages settings flagClass filter list rest

def collect (settings : Settings) (flagClass : FlagClass)
    (catalogue : Catalogue) (filter : Filter) : Run ArgumentList := do
  let seeded ←
    if settings.isOn flagClass.keepSystem then
      pure ArgumentList.empty
    else do
      let exclusion ← ArgumentList.empty.excludeSystem
        (flagClass.systemDirectories settings) settings.delimiter
        flagClass.directoryLetter
      exclusion.complete
  appendPackages settings flagClass filter seeded catalogue.packages

def renderInto (settings : Settings) (flagClass : FlagClass)
    (catalogue : Catalogue) (delimiter : Char) (rendering : Rendering) :
    Option Filter → Run Rendering
  | none => return rendering
  | some filter => do
      let list ← flagClass.collect settings catalogue filter
      return rendering.add delimiter (settings.isOn .msvcSyntax) list

end FlagClass

end PkgConfig
