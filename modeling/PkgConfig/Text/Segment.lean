import PkgConfig.Text.Character

namespace PkgConfig.Text

/-! Texts are cut at separating characters, which belong to no segment. A
separator therefore cuts a text into two that are cut on their own. -/

def attachToSegment (separates : Char → Bool) (character : Char) :
    List (List Char) → List (List Char)
  | [] => [[character]]
  | segment :: rest =>
      if separates character then [] :: segment :: rest
      else (character :: segment) :: rest

def cutSegments (separates : Char → Bool) (text : List Char) :
    List (List Char) :=
  text.foldr (attachToSegment separates) [[]]

private theorem cutSegments_ne_nil (separates : Char → Bool)
    (text : List Char) : cutSegments separates text ≠ [] := by
  cases text with
  | nil => simp [cutSegments]
  | cons character rest =>
      rw [cutSegments, List.foldr_cons]
      unfold attachToSegment
      split
      · simp
      · split <;> simp

private theorem attachToSegment_append (separates : Char → Bool)
    (character : Char)
    {left : List (List Char)} (present : left ≠ []) (right : List (List Char)) :
    attachToSegment separates character (left ++ right) =
      attachToSegment separates character left ++ right := by
  cases left with
  | nil => exact absurd rfl present
  | cons segment rest =>
      simp only [attachToSegment, List.cons_append]
      split <;> simp

private theorem cutSegments_append {separates : Char → Bool} {separator : Char}
    (cuts : separates separator = true) (left right : List Char) :
    cutSegments separates (left ++ separator :: right) =
      cutSegments separates left ++ cutSegments separates right := by
  induction left with
  | nil =>
      cases equal : cutSegments separates right with
      | nil => exact absurd equal (cutSegments_ne_nil separates right)
      | cons segment rest =>
          have cut : cutSegments separates (separator :: right) =
              attachToSegment separates separator
                (cutSegments separates right) := rfl
          rw [List.nil_append, cut, equal]
          simp [attachToSegment, cuts, cutSegments]
  | cons character rest induction =>
      have cut : ∀ text, cutSegments separates (character :: text) =
          attachToSegment separates character (cutSegments separates text) :=
        fun _ => rfl
      rw [List.cons_append, cut, cut, induction]
      exact attachToSegment_append separates character
        (cutSegments_ne_nil separates rest) _

def segments (separates : Char → Bool) (text : String) : List String :=
  (cutSegments separates text.toList).map String.ofList

example : segments (· == ':') ":a::b" = ["", "a", "", "b"] := by decide

example : segments (· == ':') "" = [""] := by decide

/-! ## Tokens -/

def separatesTokens (character : Char) : Bool :=
  character == ',' || isBlank character

def tokens (text : String) : List String :=
  (segments separatesTokens text).filter (· != "")

example : tokens " a,b  >= 1 ,," = ["a", "b", ">=", "1"] := by decide

theorem tokens_append {separator : Char}
    (separates : separatesTokens separator = true) (left right : String) :
    tokens (left ++ String.singleton separator ++ right) =
      tokens left ++ tokens right := by
  simp only [tokens, segments, String.toList_append, String.toList_singleton,
    List.append_assoc, List.singleton_append, cutSegments_append separates,
    List.map_append, List.filter_append]

end PkgConfig.Text
