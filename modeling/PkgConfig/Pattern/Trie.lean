import PkgConfig.Pattern.Plan

namespace PkgConfig.Pattern

/-! How a choice among literals is built: as a tree in which they share the bytes
that they begin with. Where a literal ends, it is preferred to those that come
later, and these share nothing with the earlier ones. -/

namespace Trie

/-- Texts in sections. Each text that ends divides what comes before it from what
comes after it. -/
def sections : List (List UInt8) → List (List (List UInt8))
  | [] => [[]]
  | [] :: rest => [] :: sections rest
  | text :: rest =>
      match sections rest with
      | [] => [[text]]
      | first :: others => (text :: first) :: others

def sectionsOnce (texts : List (List UInt8)) : List (List (List UInt8)) :=
  let others := sections (texts.dropWhile (·.isEmpty))
  if texts.head?.any (·.isEmpty) then [] :: others else others

example : sectionsOnce [[], [], [1, 2], [], [], [3]] =
    [[], [[1, 2]], [], [[3]]] := by decide

def laters (byte : UInt8) (texts : List (List UInt8)) : List (List UInt8) :=
  texts.filterMap fun
    | first :: later => if first = byte then some later else none
    | [] => none

/-- What a section takes: one state with a step for each first byte, and the trees
for what follows. -/
def sectionExtent (tree : List (List UInt8) → Extent)
    (texts : List (List UInt8)) : Extent :=
  let firsts := (texts.filterMap List.head?).eraseDups
  let own :=
    match firsts with
    | [] => Extent.empty
    | [_] => .state
    | _ => .branching firsts.length
  firsts.foldl (fun extent byte => extent.add (tree (laters byte texts))) own

def treeExtent : Nat → List (List UInt8) → Extent
  | 0, _ => .empty
  | depth + 1, texts =>
      if texts.all (·.isEmpty) then
        .empty
      else
        let sections := sectionsOnce texts
        let ways := sections.length - 1 +
          (sections.filter (!·.isEmpty)).length
        sections.foldl
          (fun extent texts =>
            extent.add (sectionExtent (treeExtent depth) texts))
          (.fork ways)

def extent (direction : Direction) (texts : List (List Char)) : Extent :=
  let spelled := texts.map fun text =>
    let bytes := text.flatMap String.utf8EncodeChar
    if direction = .forwards then bytes else bytes.reverse
  let depth := (spelled.map List.length).foldl max 0
  Extent.state.add (treeExtent depth spelled)

example : extent .forwards [['a', 'b'], ['a', 'c'], ['d']] =
    ⟨5, 40⟩ := by decide +kernel

end Trie

end PkgConfig.Pattern
