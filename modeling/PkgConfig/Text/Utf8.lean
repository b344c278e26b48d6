namespace PkgConfig.Text

/-! File contents are read as UTF-8. A byte that cannot start or continue a
character ends what came before it; every cut-off beginning, and every byte that
begins nothing, is read as one replacement character. -/

def replacement : Char := '\ufffd'

/-- The beginning of a character: its bits so far, the number of bytes that
are missing, and the range of the next one. -/
structure PartialCharacter where
  bits : Nat
  missing : Nat
  low : UInt8
  high : UInt8
  deriving DecidableEq, Repr

structure Utf8Reader where
  output : String
  pending : Option PartialCharacter

namespace Utf8Reader

def start : Utf8Reader := ⟨"", none⟩

/-- Read the first byte of a character. Overlong forms, surrogates and values
above the last code point are ruled out by the range of the second byte. -/
def begin (output : String) (byte : UInt8) : Utf8Reader :=
  if byte < 0x80 then
    ⟨output.push (Char.ofNat byte.toNat), none⟩
  else if byte < 0xC2 then
    ⟨output.push replacement, none⟩
  else if byte < 0xE0 then
    ⟨output, some ⟨byte.toNat - 0xC0, 1, 0x80, 0xBF⟩⟩
  else if byte < 0xF0 then
    let low := if byte = 0xE0 then 0xA0 else 0x80
    let high := if byte = 0xED then 0x9F else 0xBF
    ⟨output, some ⟨byte.toNat - 0xE0, 2, low, high⟩⟩
  else if byte < 0xF5 then
    let low := if byte = 0xF0 then 0x90 else 0x80
    let high := if byte = 0xF4 then 0x8F else 0xBF
    ⟨output, some ⟨byte.toNat - 0xF0, 3, low, high⟩⟩
  else
    ⟨output.push replacement, none⟩

def read (reader : Utf8Reader) (byte : UInt8) : Utf8Reader :=
  match reader.pending with
  | none => begin reader.output byte
  | some ⟨bits, missing, low, high⟩ =>
      if low ≤ byte ∧ byte ≤ high then
        let bits := bits * 64 + (byte.toNat - 0x80)
        if missing ≤ 1 then
          ⟨reader.output.push (Char.ofNat bits), none⟩
        else
          ⟨reader.output, some ⟨bits, missing - 1, 0x80, 0xBF⟩⟩
      else
        begin (reader.output.push replacement) byte

def finish (reader : Utf8Reader) : String :=
  match reader.pending with
  | none => reader.output
  | some _ => reader.output.push replacement

end Utf8Reader

def ofUtf8 (bytes : List UInt8) : String :=
  (bytes.foldl Utf8Reader.read .start).finish

example : ofUtf8 [0x61, 0xC3, 0xA9] = "aé" := by decide

example : ofUtf8 [0xE2, 0x82, 0x41] = "\ufffdA" := by decide

example : ofUtf8 [0xED, 0xA0, 0x80, 0xC0, 0xAF] =
    "\ufffd\ufffd\ufffd\ufffd\ufffd" := by decide

end PkgConfig.Text
