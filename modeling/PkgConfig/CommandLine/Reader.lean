import PkgConfig.CommandLine.Options
import PkgConfig.Error
import PkgConfig.Text.ControlSequence
import PkgConfig.Text.Line
import PkgConfig.Text.WhiteSpace

namespace PkgConfig.CommandLine

/-! Arguments are read from left to right. A value may be attached to its option
by an equals sign or follow as the next argument, unless that one looks like an
option. Two dashes end the options. -/

inductive Shape where
  | terminator
  | long (name : String) (value : Option String)
  | short (letters : List Char)
  | plain

def Shape.ofArgument (argument : String) : Shape :=
  match argument.toList with
  | ['-', '-'] => .terminator
  | '-' :: '-' :: text =>
      let name := String.ofList (text.takeWhile (· != '='))
      match text.dropWhile (· != '=') with
      | _ :: value => .long name (some (String.ofList value))
      | [] => .long name none
  | '-' :: letter :: letters => .short (letter :: letters)
  | _ => .plain

structure Reader where
  selection : Selection
  pending : Option OptionName
  ended : Bool

namespace Reader

def start : Reader := ⟨.empty, none, false⟩

/-- Another option or argument may not come before an awaited value. -/
def requireSettled (reader : Reader) : Except Error Unit :=
  match reader.pending with
  | some name => .error (.missingArgument name.display)
  | none => .ok ()

def give (reader : Reader) (name : OptionName) (value : String) :
    Except Error Reader := do
  reader.requireSettled
  return { reader with selection := reader.selection.addOption ⟨name, value⟩ }

def unknown (option : String) : Except Error Reader :=
  .error (.unknownOption (Text.firstWord option))

/-- Errors in the spelling of an option come before a missing value. -/
def readLong (reader : Reader) (text : String) (value : Option String) :
    Except Error Reader :=
  match OptionName.ofLong? text with
  | none => unknown ("--" ++ text)
  | some name =>
      match value with
      | some value =>
          if name.takesValue then reader.give name value
          else .error (.unexpectedValue value name.display)
      | none =>
          if name.takesValue then do
            reader.requireSettled
            return { reader with pending := some name }
          else
            reader.give name ""

def readShort (reader : Reader) : List Char → Except Error Reader
  | [] => .ok reader
  | letter :: rest =>
      match OptionName.ofShort? letter with
      | none => unknown (String.ofList ['-', letter])
      | some name => do
          let reader ← reader.give name ""
          reader.readShort rest

def readPlain (reader : Reader) (argument : String) : Except Error Reader :=
  match reader.pending with
  | some name =>
      .ok { reader with
        selection := reader.selection.addOption ⟨name, argument⟩
        pending := none }
  | none => .ok { reader with selection := reader.selection.addPackage argument }

def read (reader : Reader) (argument : String) : Except Error Reader :=
  if reader.ended then do
    reader.requireSettled
    return { reader with selection := reader.selection.addPackage argument }
  else
    match Shape.ofArgument argument with
    | .terminator => .ok { reader with ended := true }
    | .long name value => reader.readLong name value
    | .short letters => reader.readShort letters
    | .plain => reader.readPlain argument

def finish (reader : Reader) : Except Error Selection := do
  reader.requireSettled
  return reader.selection

end Reader

def parse (arguments : List String) : Except Error Selection := do
  let reader ← arguments.foldlM Reader.read .start
  reader.finish

/-- A diagnostic about options takes one plain line. A value is set off by its
style, so that no sequence in it outlasts it. -/
def optionMessage (error : Error) : String :=
  match error with
  | .unexpectedValue value option =>
      let styled := Error.unexpectedValue (value ++ Text.resetStyle) option
      Text.firstLine (Text.plain styled.message)
  | _ => error.message

end PkgConfig.CommandLine
