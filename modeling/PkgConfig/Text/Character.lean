namespace PkgConfig.Text

/-! Character classes. All of them are sets of ASCII characters. -/

def blanks : List Char := ['\t', '\n', '\x08', '\x0c', '\r', ' ']

/-- The characters that a shell would act on inside a word. Dollar signs and
parentheses are not among them, so that `$(name)` stays as it is. -/
def shellMeta : List Char :=
  ['\"', '!', '#', '%', '&', '\'', '*', '<', '>', '?', '[', '\\', ']', '\x60',
    '\x7b', '|', '\x7d']

def isBlank (character : Char) : Bool := blanks.contains character

def isShellMeta (character : Char) : Bool := shellMeta.contains character

/-- What cannot stand for itself in a path that enters a field. -/
def isGuarded (character : Char) : Bool :=
  isBlank character || isShellMeta character ||
    ['$', '(', ')'].contains character

def isSeparator (character : Char) : Bool :=
  character == '/' || character == '\\'

def quotes : List Char := ['\"', '\'']

def isQuote (character : Char) : Bool := quotes.contains character

theorem isShellMeta_of_isQuote {character : Char}
    (quote : isQuote character = true) : isShellMeta character = true := by
  simp only [isQuote, quotes, List.contains_eq_mem, List.mem_cons,
    List.not_mem_nil, or_false, decide_eq_true_eq] at quote
  rcases quote with rfl | rfl <;> decide

theorem digit_lt_ten {character : Char} (digit : character.isDigit = true) :
    character.toNat - '0'.toNat < 10 := by
  rw [Char.isDigit_iff_toNat] at digit
  have nine : '9'.toNat = '0'.toNat + 9 := rfl
  omega

/-! ## Sizes -/

def byteLength (text : List Char) : Nat :=
  text.foldl (fun total character => total + character.utf8Size) 0

private theorem foldl_utf8Size (text : List Char) (start : Nat) :
    text.foldl (fun total character => total + character.utf8Size) start =
      start + byteLength text := by
  unfold byteLength
  induction text generalizing start with
  | nil => rfl
  | cons head rest induction =>
      simp only [List.foldl_cons]
      rw [induction, induction (0 + head.utf8Size)]
      omega

@[simp] theorem byteLength_nil : byteLength [] = 0 := rfl

@[simp] theorem byteLength_cons (head : Char) (rest : List Char) :
    byteLength (head :: rest) = head.utf8Size + byteLength rest := by
  rw [byteLength, List.foldl_cons, foldl_utf8Size]
  omega

@[simp] theorem byteLength_append (left right : List Char) :
    byteLength (left ++ right) = byteLength left + byteLength right := by
  induction left with
  | nil => simp
  | cons head rest induction => simp [induction]; omega

end PkgConfig.Text
