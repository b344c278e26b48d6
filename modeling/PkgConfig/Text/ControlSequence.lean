namespace PkgConfig.Text

/-! Diagnostics are printed without control characters and without the control
sequences of terminals. A sequence starts with an escape; the characters after
it tell its kind and so where it ends. -/

inductive SequenceState where
  | outside
  | escaped
  | short
  | bracketed
  | command
  | deviceEntry
  | deviceParameters
  | deviceIntermediate
  | passedOn
  deriving DecidableEq, Repr

inductive Reaction where
  | keep
  | drop
  | enter (state : SequenceState)
  deriving DecidableEq, Repr

namespace SequenceState

def isBetween (first last character : Char) : Bool :=
  first ≤ character && character ≤ last

def isSpacing (character : Char) : Bool :=
  ['\t', '\n', '\x0c', '\r'].contains character

def isPlain (character : Char) : Bool :=
  (' ' ≤ character && character != '\x7f') || isSpacing character

/-- Whether the number 0x9C, which ends a text that is passed on, is among the
last bytes of a character. -/
def holdsTerminator (character : Char) : Bool :=
  let code := character.toNat
  (0x80 ≤ code && code % 64 == 28) ||
    (0x800 ≤ code && code / 64 % 64 == 28) ||
    (0x10000 ≤ code && code / 4096 % 64 == 28)

def afterEscape (character : Char) : Reaction :=
  match character with
  | '[' => .enter .bracketed
  | ']' => .enter .command
  | 'P' => .enter .deviceEntry
  | 'X' | '^' | '_' => .enter .passedOn
  | _ =>
      if isBetween ' ' '/' character then .enter .short
      else if isBetween '0' '~' character then .enter .outside
      else .drop

/-- White space is kept in the sequences that are for the terminal itself. -/
def spaced (character : Char) (reaction : Reaction) : Reaction :=
  if isSpacing character then .keep else reaction

def react (state : SequenceState) (character : Char) : Reaction :=
  if character == '\x18' || character == '\x1a' then .enter .outside
  else if character == '\x1b' then .enter .escaped
  else
    match state with
    | .outside => if isPlain character then .keep else .drop
    | .escaped => spaced character (afterEscape character)
    | .short =>
        spaced character
          (if isBetween '0' '~' character then .enter .outside else .drop)
    | .bracketed =>
        spaced character
          (if isBetween '@' '~' character then .enter .outside else .drop)
    | .command => if character == '\x07' then .enter .outside else .drop
    | .deviceEntry =>
        if isBetween ' ' '/' character then .enter .deviceIntermediate
        else if isBetween '0' '?' character then .enter .deviceParameters
        else if isBetween '@' '~' character then .enter .passedOn
        else .drop
    | .deviceParameters =>
        if isBetween ' ' '/' character then .enter .deviceIntermediate
        else if isBetween '<' '~' character then .enter .passedOn
        else .drop
    | .deviceIntermediate =>
        if isBetween '0' '~' character then .enter .passedOn else .drop
    | .passedOn =>
        if holdsTerminator character then .enter .outside else .drop

end SequenceState

/-- Take control sequences and other control characters out of a text. White
space interrupts a sequence. If sequences are resumed, the next character that
is dropped takes the interrupted one up again, unless a character beyond ASCII
came between. -/
def plainCharacters (resumes : Bool) :
    SequenceState → SequenceState → List Char → List Char
  | _, _, [] => []
  | state, interrupted, character :: rest =>
      match state.react character with
      | .enter next => plainCharacters resumes next .outside rest
      | .drop =>
          let next := if state = .outside then interrupted else state
          plainCharacters resumes next .outside rest
      | .keep =>
          let pending :=
            if state != .outside then state
            else if character.toNat < 0x80 then interrupted
            else .outside
          character ::
            plainCharacters resumes .outside
              (if resumes then pending else .outside) rest

def plain (text : String) : String :=
  String.ofList (plainCharacters false .outside .outside text.toList)

def plainLine (text : String) : String :=
  String.ofList (plainCharacters true .outside .outside text.toList)

def resetStyle : String := "\x1b[0m"

example : plain "a\x1b[31mb\x01\n" = "ab\n" := by decide

example : plain "\x1b[1\tm\x07m" = "\tmm" ∧ plainLine "\x1b[1\tm\x07m" = "\tm" := by
  decide

example : plain "\x1bP1;2qdata\x1b\\\x1b]8;;\x07z" = "z" := by decide

end PkgConfig.Text
