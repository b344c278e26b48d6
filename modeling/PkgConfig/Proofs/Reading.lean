import PkgConfig.Proofs.RecursiveWalk

namespace PkgConfig.Resolve

/-! Reading requirements is put together from looking at the catalogue, changing
it, loading packages and failing. What holds of these and is kept by sequencing
holds of reading. -/

/-- The property holds of the parts of reading, and is kept by sequencing. -/
structure Compositional (settings : Settings)
    (property : ∀ {α : Type}, Resolve α → Prop) : Prop where
  pure {α : Type} (value : α) : property (pure value : Resolve α)
  throw {α : Type} (error : Error) : property (throw error : Resolve α)
  bind {α β : Type} {first : Resolve α} {second : α → Resolve β}
    (earlier : property first) (later : ∀ value, property (second value)) :
    property (first >>= second)
  catalogue : property Resolve.catalogue
  setCatalogue (catalogue : Catalogue) :
    property (Resolve.setCatalogue catalogue)
  note (event : Event) : property (ofRun (Run.note event))
  find (token : String) : property (ofRun (Package.find settings token))

namespace Compositional

variable {settings : Settings} {property : ∀ {α : Type}, Resolve α → Prop}
  (parts : Compositional settings property)

include parts

theorem foldlM {α β : Type} {read : β → α → Resolve β}
    (each : ∀ state item, property (read state item)) (items : List α)
    (state : β) : property (items.foldlM read state) := by
  induction items generalizing state with
  | nil => exact parts.pure state
  | cons item rest induction =>
      rw [List.foldlM_cons]
      exact parts.bind (each state item) induction

theorem checkVersion (last : Option Nat) (comparator : Comparator)
    (wanted : String) :
    property (Walk.checkVersion settings last comparator wanted) := by
  apply parts.bind parts.catalogue
  intro catalogue
  split
  · exact parts.pure ()
  · split
    · exact parts.pure ()
    · split
      · exact parts.pure ()
      · exact parts.throw _

theorem endList (position : Position) :
    property (RecursiveWalk.endList position) := by
  unfold RecursiveWalk.endList
  split
  · exact parts.pure ()
  · exact parts.bind parts.catalogue fun _ => parts.throw _

theorem readNested {read : Position → String → Resolve Position}
    (each : ∀ position token, property (read position token))
    (tokens : List String) :
    property (RecursiveWalk.readNested read tokens) :=
  parts.bind (parts.foldlM each tokens .start) parts.endList

section

variable {opened : Nat}
  (nested : ∀ more, opened < more → more ≤ maxFrames →
    ∀ depth marks position token,
      property (RecursiveWalk.readToken settings more depth marks position
        token))

include nested

theorem revisit (depth : Nat) (marks : Marks) (token : String) (id : Nat) :
    property (RecursiveWalk.revisit settings opened depth marks token id) := by
  rw [RecursiveWalk.revisit]
  apply parts.bind parts.catalogue
  intro catalogue
  dsimp only
  split
  -- The note about a promotion comes in front of the same steps.
  on_goal 1 =>
    apply parts.bind (parts.note _)
    intro _
  all_goals
    apply parts.bind (parts.setCatalogue _)
    intro _
    split
    · split
      next room =>
        have each := nested _ (Nat.lt_succ_self _) room (depth + 1)
          marks.indirect
        exact parts.bind (parts.readNested each _) fun _ => parts.pure _
      · exact parts.bind (parts.throw _) fun _ => parts.pure _
    · exact parts.pure _

theorem discover (depth : Nat) (marks : Marks) (token : String) :
    property (RecursiveWalk.discover settings opened depth marks token) := by
  rw [RecursiveWalk.discover]
  apply parts.bind (parts.find token)
  intro package
  apply parts.bind parts.catalogue
  intro catalogue
  apply parts.bind (parts.setCatalogue _)
  intro _
  split
  · split
    next room =>
      have publicList := nested (opened + 2) (by omega) room (depth + 1)
        marks.indirect
      have privateList := nested (opened + 1) (by omega) (by omega) (depth + 1)
        .none
      apply parts.bind (parts.setCatalogue _)
      intro _
      apply parts.bind (parts.readNested publicList _)
      intro _
      exact parts.bind (parts.readNested privateList _) fun _ => parts.pure _
    · exact parts.bind (parts.throw _) fun _ => parts.pure _
  · exact parts.bind (parts.setCatalogue _) fun _ => parts.pure _

end

/-- The induction is on the room that is left for nested lists. -/
theorem readToken (opened depth : Nat) (marks : Marks) (position : Position)
    (token : String) :
    property (RecursiveWalk.readToken settings opened depth marks position
      token) := by
  induction measured : maxFrames - opened using Nat.strongRecOn generalizing
    opened depth marks position token with
  | ind room outer =>
  have nested : ∀ more, opened < more → more ≤ maxFrames →
      ∀ depth marks position token, property (RecursiveWalk.readToken settings
        more depth marks position token) := by
    intro more higher within depth marks position token
    exact outer _ (by omega) more depth marks position token rfl
  rw [RecursiveWalk.readToken]
  split
  · exact parts.bind (parts.checkVersion _ _ _) fun _ => parts.pure _
  · split
    · split
      · exact parts.throw _
      · exact parts.pure _
    · apply parts.bind parts.catalogue
      intro catalogue
      split
      · exact parts.revisit nested _ _ _ _
      · exact parts.discover nested _ _ _

/-! ### With a stack -/

theorem closeList (frame : Frame) : property (Walk.closeList frame) := by
  unfold Walk.closeList
  split
  · exact parts.pure ()
  · exact parts.bind parts.catalogue fun _ => parts.throw _

section

variable (frame : Frame) (below : List Frame)
  (bounded : below.length < maxFrames) (token : String)

private theorem revisitOn (id : Nat) (package : Package) :
    property (Walk.revisit settings frame below bounded token id package) := by
  apply parts.bind parts.catalogue
  intro catalogue
  split
  · apply parts.bind (parts.note _)
    intro _
    apply parts.bind (parts.setCatalogue _)
    intro _
    split
    · split
      · exact parts.bind (parts.setCatalogue _) fun _ => parts.pure _
      · exact parts.throw _
    · exact parts.bind (parts.setCatalogue _) fun _ => parts.pure _
  · exact parts.bind (parts.setCatalogue _) fun _ => parts.pure _

private theorem discoverOn :
    property (Walk.discover settings frame below bounded token) := by
  apply parts.bind (parts.find token)
  intro package
  apply parts.bind parts.catalogue
  intro catalogue
  apply parts.bind (parts.setCatalogue _)
  intro _
  split
  · split
    · exact parts.bind (parts.setCatalogue _) fun _ => parts.pure _
    · exact parts.throw _
  · exact parts.bind (parts.setCatalogue _) fun _ => parts.pure _

theorem visit : property (Walk.visit settings frame below bounded token) := by
  apply parts.bind parts.catalogue
  intro catalogue
  split
  · exact parts.discoverOn _ _ _ _
  · split
    · exact parts.pure _
    · exact parts.revisitOn _ _ _ _ _ _

end

theorem step (walk : Walk) : property (Walk.step settings walk) := by
  rcases walk with ⟨⟨tokens, position, depth, marks⟩, below, bounded⟩
  cases tokens with
  | nil =>
      cases below with
      | nil => exact parts.pure _
      | cons frame below =>
          exact parts.bind (parts.closeList _) fun _ => parts.pure _
  | cons token tokens =>
      rw [Walk.step]
      split
      · exact parts.bind (parts.checkVersion _ _ _) fun _ => parts.pure _
      · split
        · split
          · exact parts.throw _
          · exact parts.pure _
        · exact parts.visit _ _ _ _

end Compositional

end PkgConfig.Resolve
