import PkgConfig.Table

namespace PkgConfig

abbrev Bindings := Table String String

structure Scope where
  globals : Bindings
  locals : Bindings

/-- A global variable hides a local one of the same name. -/
def Scope.find? (scope : Scope) (name : String) : Option String :=
  match scope.globals.find? name with
  | some value => some value
  | none => scope.locals.find? name

end PkgConfig
