namespace PkgConfig

namespace Argument

/-! Single arguments of a compiler or linker call. -/

def hasFlag (argument : String) (letter : Char) : Bool :=
  match argument.toList with
  | dash :: second :: _ => dash == '-' && second == letter
  | _ => false

def uniqueFlags : List Char := ['D', 'I', 'L', 'f', 'l', 'm']

/-- Whether repetitions of an argument are dropped. A bare flag is never
dropped, since its value is the next argument. -/
def isUnique (argument : String) : Bool :=
  match argument.toList with
  | '-' :: letter :: _ :: _ =>
      uniqueFlags.contains letter || argument == "-pthread"
  | _ => false

example : isUnique "-lm" ∧ isUnique "-pthread" ∧ ¬ isUnique "-I" := by decide

/-- Whether the last occurrence of an argument counts, and not the first. -/
def isLibrary (argument : String) : Bool := hasFlag argument 'l'

def value (argument : String) : String :=
  String.ofList (argument.toList.drop 2)

def msvc (argument : String) : String :=
  if hasFlag argument 'L' then "/libpath:" ++ value argument
  else if hasFlag argument 'I' then "/I" ++ value argument
  else if hasFlag argument 'l' then value argument ++ ".lib"
  else if hasFlag argument 'D' then "/D" ++ value argument
  else if argument = "-mwindows" then "/subsystem:windows"
  else if argument = "-mconsole" then "/subsystem:console"
  else argument

example : msvc "-L/x" = "/libpath:/x" ∧ msvc "-lfoo" = "foo.lib" := by decide

end Argument

/-! ## Filters -/

inductive Filter where
  | any
  | includeDirs
  | libDirs
  | libNames
  | otherCflags
  | otherLibs
  deriving DecidableEq, Repr

namespace Filter

def all : List Filter :=
  [.any, .includeDirs, .libDirs, .libNames, .otherCflags, .otherLibs]

def accepts (filter : Filter) (argument : String) : Bool :=
  match filter with
  | .any => true
  | .includeDirs => Argument.hasFlag argument 'I'
  | .libDirs => Argument.hasFlag argument 'L'
  | .libNames => Argument.hasFlag argument 'l'
  | .otherCflags => !Argument.hasFlag argument 'I'
  | .otherLibs =>
      !Argument.hasFlag argument 'L' && !Argument.hasFlag argument 'l'

end Filter

end PkgConfig
