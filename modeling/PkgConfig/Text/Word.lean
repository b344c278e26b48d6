import PkgConfig.Run
import PkgConfig.Text.Encoding

namespace PkgConfig.Text

/-! A field is split into words as a shell would split it, and every word is
escaped again, so that it can be pasted into a command line. Quotes are dropped
and a backslash never escapes anything in a field. -/

structure Word where
  escaped : List Char
  rest : List Char
  closed : Bool
  deriving DecidableEq, Repr

namespace Word

/-- Put a character at the end of a reversed word, behind a backslash where a
shell needs one. -/
def escapeOnto (word : List Char) (character : Char) : List Char :=
  if character == ' ' || isShellMeta character then
    character :: '\\' :: word
  else
    character :: word

def scan (quote : Option Char) (word : List Char) : List Char → Word
  | [] => ⟨word.reverse, [], quote.isNone⟩
  | character :: rest =>
      match decodeCharacter? character with
      | some guarded => scan quote (guarded :: '\\' :: word) rest
      | none =>
          let shown := if isBlank character then ' ' else character
          match quote with
          | some opening =>
              if shown == opening then scan none word rest
              else scan quote (escapeOnto word shown) rest
          | none =>
              if isQuote shown then scan (some shown) word rest
              else if shown == ' ' then ⟨word.reverse, character :: rest, true⟩
              else scan none (escapeOnto word shown) rest

def ofText (text : List Char) : Word := scan none [] (text.dropWhile isBlank)

example : (ofText " -I\"my dir\"x 'y'".toList).escaped =
    "-Imy\\ dirx".toList := by decide

example : (ofText "'open".toList).closed = false := by decide

private theorem length_rest_scan_le (quote : Option Char)
    (word text : List Char) :
    (scan quote word text).rest.length ≤ text.length := by
  fun_induction scan quote word text <;>
    simp_all only [List.length_cons, Nat.le_refl, List.length_nil]
  all_goals exact Nat.le_succ_of_le ‹_›

private theorem length_rest_scan_lt (word text : List Char) (character : Char)
    (inside : isBlank character = false) :
    (scan none word (character :: text)).rest.length < text.length + 1 := by
  have within := length_rest_scan_le
  have visible : (character == ' ') = false := by
    rcases same : character == ' ' with _ | _
    · rfl
    · rw [beq_iff_eq.mp same] at inside
      exact absurd inside (by decide)
  unfold scan
  split
  · exact Nat.lt_succ_of_le (within ..)
  · simp only [inside, visible, Bool.false_eq_true, if_false]
    split
    · exact Nat.lt_succ_of_le (within ..)
    · exact Nat.lt_succ_of_le (within ..)

theorem length_rest_ofText {text : List Char} (nonempty : text ≠ []) :
    (ofText text).rest.length < text.length := by
  have shrinks := (List.dropWhile_sublist isBlank (l := text)).length_le
  unfold ofText
  cases visible : text.dropWhile isBlank with
  | nil =>
      have positive := List.length_pos_iff.mpr nonempty
      simpa [scan] using positive
  | cons character rest =>
      have inside : isBlank character = false := by
        have head := List.head_dropWhile_not (p := isBlank) (l := text)
          (by simp [visible])
        simpa [visible] using head
      have less := length_rest_scan_lt [] rest character inside
      rw [visible, List.length_cons] at shrinks
      omega

/-- Charge a word as it is written and tell whether it is one. A word whose
quote stays open gives its charges back. -/
def charge (word : Word) : Run Bool := do
  let used ← Run.used
  Run.chargeEach word.escaped
  if word.closed then
    return true
  else
    Run.release used
    return false

end Word

end PkgConfig.Text
