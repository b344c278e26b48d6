import PkgConfig.Bindings
import PkgConfig.Error
import PkgConfig.Field
import PkgConfig.Text.Character

namespace PkgConfig

/-! A metadata file is a list of entries, `name = value` for a variable and
`Name: value` for a field. Values may continue behind an escaped line break and
end at a comment. -/

structure Metadata where
  bindings : Bindings
  fields : Table Field String

namespace Metadata

open Text

/-! ## Entries -/

inductive EntryKind where
  | variable
  | field
  deriving DecidableEq, Repr

def EntryKind.ofSeparator? : Char → Option EntryKind
  | '=' => some .variable
  | ':' => some .field
  | _ => none

structure Entry where
  kind : EntryKind
  name : String
  value : String
  deriving DecidableEq, Repr

def afterLine (text : List Char) : List Char :=
  (text.dropWhile (· != '\n')).drop 1

/-- Skip the blanks in front of a value. An escaped line break is one of them,
a bare one is not. -/
def skipBlanks : List Char → List Char
  | '\\' :: '\n' :: rest => skipBlanks rest
  | '\\' :: '\r' :: '\n' :: rest => skipBlanks rest
  | '\n' :: rest => '\n' :: rest
  | character :: rest =>
      if isBlank character then skipBlanks rest else character :: rest
  | [] => []

/-- Read a value up to the end of its line or a comment. `kept` is the value so
far and `held` the blanks and backslashes after it, both in reverse; what is
held becomes part of the value once something visible follows. -/
def readValue (kept held : List Char) : List Char → List Char × List Char
  | [] => (kept.reverse, [])
  | '\n' :: rest => (kept.reverse, rest)
  | '#' :: rest => (kept.reverse, afterLine rest)
  | '\\' :: '#' :: rest => readValue ('#' :: held ++ kept) [] rest
  | '\\' :: '\n' :: rest => readValue kept held rest
  | '\\' :: '\r' :: '\n' :: rest => readValue kept held rest
  | '\\' :: rest => readValue kept ('\\' :: held) rest
  | character :: rest =>
      if isBlank character then readValue kept (character :: held) rest
      else readValue (character :: held ++ kept) [] rest

def endsName (character : Char) : Bool :=
  character == '\n' || character == '=' || character == ':'

def trimEnd (text : List Char) : List Char :=
  (text.reverse.dropWhile isBlank).reverse

/-- The entry of the first line, unless that line is blank, a comment or
without a separator, and the text after it. -/
def readEntry (text : List Char) : Option Entry × List Char :=
  match text.dropWhile isBlank with
  | [] => (none, [])
  | '#' :: rest => (none, afterLine rest)
  | line =>
      let name := String.ofList (trimEnd (line.takeWhile (!endsName ·)))
      match line.dropWhile (!endsName ·) with
      | [] => (none, [])
      | separator :: rest =>
          match EntryKind.ofSeparator? separator with
          | none => (none, rest)
          | some kind =>
              let (value, rest) := readValue [] [] (skipBlanks rest)
              (some ⟨kind, name, String.ofList value⟩, rest)

/-! Every part of the reader leaves a rest that is no longer than its text. -/

private theorem length_dropWhile_le (passes : Char → Bool) (text : List Char) :
    (text.dropWhile passes).length ≤ text.length :=
  (List.dropWhile_sublist passes).length_le

private theorem length_afterLine_le (text : List Char) :
    (afterLine text).length ≤ text.length := by
  have := length_dropWhile_le (· != '\n') text
  simp only [afterLine, List.length_drop]
  omega

private theorem length_skipBlanks_le (text : List Char) :
    (skipBlanks text).length ≤ text.length := by
  fun_induction skipBlanks text <;> grind

private theorem length_readValue_le (kept held text : List Char) :
    (readValue kept held text).2.length ≤ text.length := by
  fun_induction readValue kept held text with
  | case3 _ _ rest => exact Nat.le_succ_of_le (length_afterLine_le rest)
  | _ => grind

private theorem length_value_le (text : List Char) :
    (readValue [] [] (skipBlanks text)).2.length ≤ text.length :=
  Nat.le_trans (length_readValue_le ..) (length_skipBlanks_le text)

theorem length_readEntry_lt {text : List Char} (nonempty : text ≠ []) :
    (readEntry text).2.length < text.length := by
  have positive := List.length_pos_iff.mpr nonempty
  have shrinks := length_dropWhile_le isBlank text
  unfold readEntry
  split
  · exact positive
  next rest line =>
    rw [line, List.length_cons] at shrinks
    have := length_afterLine_le rest
    simp only
    omega
  · have named := length_dropWhile_le (!endsName ·) (text.dropWhile isBlank)
    simp only
    split
    · exact positive
    next separator rest separated =>
      rw [separated, List.length_cons] at named
      have := length_value_le rest
      split <;> simp only <;> omega

def readEntries (text : List Char) : List Entry :=
  if _nonempty : text = [] then []
  else (readEntry text).1.toList ++ readEntries (readEntry text).2
termination_by text.length
decreasing_by exact length_readEntry_lt ‹_›

/-! ## Assembly -/

def empty : Metadata where
  bindings := .empty
  fields := .empty

/-- Add an entry. Variables and known fields are given once; other fields are
dropped. -/
def add (path : String) (metadata : Metadata) (entry : Entry) :
    Except Error Metadata :=
  match entry.kind with
  | .variable =>
      match metadata.bindings.insertNew? entry.name entry.value with
      | some bindings => .ok { metadata with bindings := bindings }
      | none => .error (.duplicateVariable entry.name path)
  | .field =>
      match Field.ofText? entry.name with
      | none => .ok metadata
      | some field =>
          match metadata.fields.insertNew? field entry.value with
          | some fields => .ok { metadata with fields := fields }
          | none => .error (.duplicateField entry.name path)

def parse (source path : String) : Except Error Metadata :=
  (readEntries source.toList).foldlM (add path) empty

def fieldsIn (metadata : Metadata) (order : FieldOrder) :
    List (Field × String) :=
  order.fields.filterMap fun field =>
    (metadata.fields.find? field).map fun value => (field, value)

def missingField? (metadata : Metadata) : Option Field :=
  Field.required.find? fun field => !metadata.fields.contains field

end Metadata

end PkgConfig
