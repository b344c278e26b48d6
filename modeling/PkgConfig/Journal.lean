import PkgConfig.Error

namespace PkgConfig

/-! A run keeps a journal of what it did. Its entries are printed as log lines
when their level is asked for; some only record which files were consulted. -/

inductive Level where
  | error
  | warn
  | info
  | debug
  | trace
  deriving DecidableEq, Repr

namespace Level

def rank : Level → Nat
  | .error => 1
  | .warn => 2
  | .info => 3
  | .debug => 4
  | .trace => 5

def label : Level → String
  | .error => "ERROR"
  | .warn => "WARN "
  | .info => "INFO "
  | .debug => "DEBUG"
  | .trace => "TRACE"

end Level

inductive Event where
  | searchPath (directories : String)
  | consulted (path : String)
  | tried (path : String)
  | listed (directory : String)
  | loaded (package path : String)
  | relocated (package directory : String)
  | skipped (path : String) (error : Error)
  | promoted (package : String)
  | exhausted (used capacity requested : Nat)
  | excluded (argument : String)
  | resolved (packages : Nat)
  | failed (error : Error)
  deriving DecidableEq, Repr

structure LogLine where
  level : Level
  target : String
  text : String
  deriving DecidableEq, Repr

namespace Event

def describe (error : Error) : String :=
  match error.cause? with
  | some cause => error.message ++ "\n\nCaused by:\n    " ++ cause.text
  | none => error.message

def line? : Event → Option LogLine
  | .searchPath directories =>
      some ⟨.debug, "libpcmeta::client", s!"search path: {directories}"⟩
  | .consulted _ => none
  | .tried path => some ⟨.trace, "libpcmeta::pkg", s!"trying '{path}'"⟩
  | .listed _ => none
  | .loaded package path =>
      some ⟨.debug, "libpcmeta::pkg", s!"loaded '{package}' from '{path}'"⟩
  | .relocated package directory =>
      some ⟨.debug, "libpcmeta::pkg",
        s!"redefining prefix of '{package}' as '{directory}'"⟩
  | .skipped path error =>
      let message := error.message
      some ⟨.warn, "libpcmeta::pkg", s!"skipping '{path}': {message}"⟩
  | .promoted package =>
      some ⟨.debug, "libpcmeta::queue", s!"promoting '{package}' to public"⟩
  | .exhausted used capacity requested =>
      some ⟨.debug, "libpcmeta::arena",
        s!"arena exhausted: {used} of {capacity} bytes used, {requested} requested"⟩
  | .excluded argument =>
      some ⟨.trace, "libpcmeta::fragment",
        s!"excluding system path '{argument}'"⟩
  | .resolved packages =>
      some ⟨.debug, "pkg_config", s!"resolved {packages} package(s)"⟩
  | .failed error =>
      let description := describe error
      some ⟨.debug, "pkg_config", s!"run failed: {description}"⟩

end Event

end PkgConfig
