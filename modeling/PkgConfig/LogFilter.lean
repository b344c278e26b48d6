import PkgConfig.Journal
import PkgConfig.Pattern.Meaning
import PkgConfig.Text.ControlSequence
import PkgConfig.Text.Segment
import PkgConfig.Text.WhiteSpace

namespace PkgConfig

/-! Which log lines are printed. A specification is a list of directives, each
for the targets that start with its name, and possibly a pattern that has to
occur in a line. -/

structure Directive where
  target : Option String
  rank : Nat
  deriving DecidableEq, Repr

structure LogFilter where
  directives : List Directive
  pattern : Option Pattern

namespace LogFilter

def rank? (text : String) : Option Nat :=
  match String.ofList (text.toList.map Char.toLower) with
  | "off" => some 0
  | "error" => some 1
  | "warn" => some 2
  | "info" => some 3
  | "debug" => some 4
  | "trace" => some 5
  | _ => none

/-- Read one directive, or tell which part of it is wrong. A name without a
level stands for all levels, a level without a name for all targets. -/
def readDirective (text : String) : Except String Directive :=
  match Text.segments (· == '=') text with
  | [single] =>
      match rank? single with
      | some rank => .ok ⟨none, rank⟩
      | none => .ok ⟨some single, 5⟩
  | [name, level] =>
      let level := Text.trim level
      if level = "" then
        .ok ⟨some name, 5⟩
      else
        match rank? level with
        | some rank => .ok ⟨some name, rank⟩
        | none => .error level
  | _ => .error text

def insertDirective (directives : List Directive) (directive : Directive) :
    List Directive :=
  if directives.any (·.target == directive.target) then
    directives.map fun other =>
      if other.target == directive.target then directive else other
  else
    directives ++ [directive]

def warning (reason : String) : String := s!"warning: {reason}, ignoring it"

def readDirectives (text : String) : List Directive × List String :=
  let parts := ((Text.segments (· == ',') text).map Text.trim).filter (· != "")
  parts.foldl
    (fun (directives, warnings) part =>
      match readDirective part with
      | .ok directive => (insertDirective directives directive, warnings)
      | .error wrong =>
          (directives, warnings ++ [warning s!"invalid logging spec '{wrong}'"]))
    ([], [])

def arrange (directives : List Directive) : List Directive :=
  let length (directive : Directive) : Nat :=
    (directive.target.map String.utf8ByteSize).getD 0
  (directives.mergeSort fun left right => length left ≤ length right).reverse

/-- Without any directive only errors are printed. -/
def ofDirectives (directives : List Directive) (pattern : Option Pattern) :
    LogFilter :=
  ⟨if directives.isEmpty then [⟨none, 1⟩] else arrange directives, pattern⟩

def read (specification : String) : LogFilter × List String :=
  match Text.segments (· == '/') specification with
  | [directives] =>
      let (directives, warnings) := readDirectives directives
      (ofDirectives directives none, warnings)
  | [directives, text] =>
      let (directives, warnings) := readDirectives directives
      match Pattern.ofText text with
      | .ok pattern => (ofDirectives directives (some pattern), warnings)
      | .error refusal =>
          let message := refusal.message
          (ofDirectives directives none,
            warnings ++ [warning s!"invalid regex filter - {message}"])
  | _ =>
      (ofDirectives [] none,
        [warning s!"invalid logging spec '{specification}' (too many '/'s)"])

def accepts (filter : LogFilter) (line : LogLine) : Bool :=
  let covers (directive : Directive) : Bool :=
    match directive.target with
    | some name => name.toList.isPrefixOf line.target.toList
    | none => true
  let enabled := match filter.directives.find? covers with
    | some directive => decide (line.level.rank ≤ directive.rank)
    | none => false
  enabled && filter.pattern.all (·.occursIn line.text)

end LogFilter

/-- A log line as it is printed. Its text goes on indented after a line break. -/
def LogLine.render (line : LogLine) : String :=
  let label := line.level.label
  let target := line.target
  let text := String.ofList (line.text.toList.flatMap fun character =>
    if character == '\n' then "\n    ".toList else [character])
  Text.plainLine s!"[{label} {target}] {text}\n"

end PkgConfig
