import PkgConfig.Expansion
import PkgConfig.Metadata
import PkgConfig.Settings

namespace PkgConfig

/-! A package is a metadata file whose fields have been expanded. -/

/-! ## Marks -/

structure Marks where
  /-- It was named by the user. -/
  direct : Bool
  /-- Its flags belong to the interface of what was named. -/
  exposed : Bool
  deriving DecidableEq, Repr

namespace Marks

def none : Marks := ⟨false, false⟩

def named : Marks := ⟨true, true⟩

def union (left right : Marks) : Marks :=
  ⟨left.direct || right.direct, left.exposed || right.exposed⟩

def without (left right : Marks) : Marks :=
  ⟨left.direct && !right.direct, left.exposed && !right.exposed⟩

def includes (left right : Marks) : Bool :=
  (!right.direct || left.direct) && (!right.exposed || left.exposed)

def indirect (marks : Marks) : Marks := { marks with direct := false }

end Marks

/-! ## Packages -/

structure Package where
  realname : String
  path : String
  bindings : Bindings
  fields : Table Field String
  marks : Marks

namespace Package

/-- An absent field reads as the empty text. -/
def field (package : Package) (field : Field) : String :=
  (package.fields.find? field).getD ""

def version (package : Package) : String := package.field .version

def title (package : Package) : String :=
  if package.version = "" then package.realname
  else package.realname ++ " " ++ package.version

def checkVersion (package : Package) (comparator : Comparator)
    (wanted : String) : Except Error Unit :=
  if comparator.holds package.version wanted then
    .ok ()
  else
    .error (.versionMismatch package.realname comparator wanted package.version)

/-! ## Loading -/

def relocatedPrefix? (path : String) : Option String :=
  let parent := Location.directory path
  if Location.fileName parent = "pkgconfig" then
    some (Location.directory (Location.directory parent))
  else
    none

example : relocatedPrefix? "/opt/x/lib/pkgconfig/x.pc" = some "/opt/x" := by
  decide

def placeVariables (settings : Settings) (realname path : String)
    (bindings : Bindings) : Run Bindings := do
  let bindings := bindings.insert "pcfiledir"
    (Text.encode (Location.directory path))
  if settings.isOn .definePrefix then
    match relocatedPrefix? path with
    | some directory => do
        Run.note (.relocated realname directory)
        return bindings.insert "prefix" (Text.encode directory)
    | none => return bindings
  else
    return bindings

def expandFields (scope : Scope) (path : String) (fields : Table Field String) :
    List (Field × String) → Run (Table Field String)
  | [] => return fields
  | (field, value) :: rest => do
      let expanded ← expand scope path value
      expandFields scope path (fields.insert field expanded) rest

def ofFields (settings : Settings) (realname path : String)
    (bindings : Bindings) (raw : List (Field × String)) : Run Package := do
  let bindings ← placeVariables settings realname path bindings
  let fields ← expandFields ⟨settings.globals, bindings⟩ path .empty raw
  Run.note (.loaded realname path)
  return ⟨realname, path, bindings, fields, .none⟩

def ofSource (settings : Settings) (realname path source : String) :
    Run Package :=
  match Metadata.parse source path with
  | .error error => throw error
  | .ok metadata =>
      match metadata.missingField? with
      | some field => throw (.missingField field.text path)
      | none =>
          ofFields settings realname path metadata.bindings
            (metadata.fieldsIn (settings.expansionOrder path))

def value? (settings : Settings) (package : Package) (name : String) :
    Run (Option String) :=
  let scope : Scope := ⟨settings.globals, package.bindings⟩
  match scope.find? name with
  | none => return none
  | some value => do
      let expanded ← expand scope package.path value
      return some expanded

end Package

end PkgConfig
