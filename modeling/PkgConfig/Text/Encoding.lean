import PkgConfig.Text.Character

namespace PkgConfig.Text

/-! Paths that come from the surroundings of a file are encoded before they
meet the text of a field. Each guarded character is replaced by a code point of
the private use area, at a fixed distance from it. Expansion and word splitting
see an ordinary character there, and the guarded one comes back on output. -/

def encodingBase : Nat := 0xE000

def encodeCharacter (character : Char) : Char :=
  if isGuarded character then Char.ofNat (encodingBase + character.toNat)
  else character

def decodeCharacter? (character : Char) : Option Char :=
  if encodingBase ≤ character.toNat then
    let guarded := Char.ofNat (character.toNat - encodingBase)
    if isGuarded guarded then some guarded else none
  else none

def decodeCharacter (character : Char) : Char :=
  (decodeCharacter? character).getD character

def encode (path : String) : String :=
  String.ofList (path.toList.map encodeCharacter)

def decode (text : String) : String :=
  String.ofList (text.toList.map decodeCharacter)

example : (encode "a b").toList = ['a', '\ue020', 'b'] := by decide

example : decode (encode "/my (x86) $dir") = "/my (x86) $dir" := by decide

example : decodeCharacter '\ue061' = '\ue061' := by decide

end PkgConfig.Text
