namespace PkgConfig.Text

def isWhiteSpace (character : Char) : Bool :=
  let code := character.toNat
  (9 ≤ code && code ≤ 13) || code == 32 || code == 0x85 || code == 0xA0 ||
    code == 0x1680 || (0x2000 ≤ code && code ≤ 0x200A) || code == 0x2028 ||
    code == 0x2029 || code == 0x202F || code == 0x205F || code == 0x3000

def trim (text : String) : String :=
  String.ofList
    ((text.toList.dropWhile isWhiteSpace).reverse.dropWhile
      isWhiteSpace).reverse

def firstWord (text : String) : String :=
  String.ofList
    ((text.toList.dropWhile isWhiteSpace).takeWhile (!isWhiteSpace ·))

example : trim " a b\n" = "a b" ∧ firstWord " a b\n" = "a" := by decide

end PkgConfig.Text
