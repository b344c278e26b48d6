import PkgConfig.Version

namespace PkgConfig

inductive ReadFailure where
  | isDirectory
  | nameTooLong
  | nulInName
  | refused (reason : String)
  deriving DecidableEq, Repr

def ReadFailure.text : ReadFailure → String
  | .isDirectory => "Is a directory (os error 21)"
  | .nameTooLong => "File name too long (os error 36)"
  | .nulInName => "file name contained an unexpected NUL byte"
  | .refused reason => reason

inductive Error where
  | outOfMemory
  | duplicateVariable (name path : String)
  | duplicateField (name path : String)
  | missingField (field path : String)
  | packageNotFound (name : String)
  | packageUnreadable (name path : String) (cause : ReadFailure)
  | undefinedVariable (name path : String)
  | expansionTooDeep (path : String)
  | traversalTooDeep (token : String)
  | unmatchedQuote (package : String)
  | versionMismatch (name : String) (comparator : Comparator)
      (wanted found : String)
  | unexpectedOperator (token : String)
  | missingVersion (comparator : Comparator) (package : Option String)
  | unknownOption (option : String)
  | missingArgument (option : String)
  | unexpectedValue (value option : String)
  | invalidDefinition (definition : String)
  | noPackages
  deriving DecidableEq, Repr

namespace Error

def message : Error → String
  | .outOfMemory => "out of memory"
  | .duplicateVariable name path => s!"duplicate variable '{name}' in '{path}'"
  | .duplicateField name path => s!"duplicate field '{name}' in '{path}'"
  | .missingField field path => s!"missing field '{field}' in '{path}'"
  | .packageNotFound name => s!"could not find package '{name}'"
  | .packageUnreadable name path _ =>
      s!"could not read package '{name}' from '{path}'"
  | .undefinedVariable name path => s!"undefined variable '{name}' in '{path}'"
  | .expansionTooDeep path => s!"exceeded max recursion depth in '{path}'"
  | .traversalTooDeep token => s!"exceeded max recursion depth on '{token}'"
  | .unmatchedQuote package => s!"unmatched quote in '{package}'"
  | .versionMismatch name comparator wanted found =>
      let operator := comparator.text
      s!"requested '{name}' {operator} '{wanted}' but got '{found}'"
  | .unexpectedOperator token => s!"unexpected operator '{token}'"
  | .missingVersion comparator package =>
      let operator := comparator.text
      let place := match package with
        | some name => s!" in package '{name}'"
        | none => ""
      s!"expected version following operator {operator}{place}"
  | .unknownOption option => s!"unknown option {option}"
  | .missingArgument option => s!"argument missing for {option}"
  | .unexpectedValue value option =>
      s!"unexpected value '{value}' for '{option}' found; no more were expected"
  | .invalidDefinition definition =>
      s!"value missing in --define-variable for '{definition}'"
  | .noPackages => "requires at least one package name"

def cause? : Error → Option ReadFailure
  | .packageUnreadable _ _ cause => some cause
  | _ => none

def fullMessage (error : Error) : String :=
  match error.cause? with
  | some cause => error.message ++ ": " ++ cause.text
  | none => error.message

end Error

end PkgConfig
