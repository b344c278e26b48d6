import PkgConfig.Proofs.Growth

namespace PkgConfig

/-! What a single step of the walk does, whether it succeeds or not. The
catalogue is built up further, and the lists that are opened belong to a package
that is new or exposed for the first time. -/

/-! ## Growing catalogues -/

namespace Catalogue

/-- The catalogue is built up by appending packages of new names and by marking
packages that it holds. -/
inductive Grows (before : Catalogue) : Catalogue → Prop
  | refl : Grows before before
  | insert (grown : Grows before between)
      (absent : between.find? package.realname = none)
      (unmarked : package.marks = .none) :
      Grows before (between.insert package)
  | expose {id : Nat} (grown : Grows before between) :
      Grows before (between.mark id ⟨false, true⟩)
  | mergeMarks {id : Nat} {marks : Marks} (grown : Grows before between)
      (known : id < between.size) :
      Grows before (between.mergeMarks id marks)

private theorem realnames_length (catalogue : Catalogue) :
    catalogue.realnames.length = catalogue.size :=
  List.length_map _

@[simp] theorem size_insert (catalogue : Catalogue) (package : Package) :
    (catalogue.insert package).size = catalogue.size + 1 := by
  simp [insert, size]

@[simp] theorem size_mark (catalogue : Catalogue) (id : Nat) (marks : Marks) :
    (catalogue.mark id marks).size = catalogue.size := by
  rw [← realnames_length, realnames_mark, realnames_length]

namespace Grows

theorem trans {first second third : Catalogue} (earlier : Grows first second)
    (later : Grows second third) : Grows first third := by
  induction later with
  | refl => exact earlier
  | insert _ absent unmarked induction =>
      exact .insert induction absent unmarked
  | expose _ induction => exact .expose induction
  | mergeMarks _ known induction => exact .mergeMarks induction known

theorem extended {before after : Catalogue} (grown : Grows before after) :
    after.Extends before := by
  induction grown with
  | refl => exact .refl _
  | insert _ _ _ induction => exact (extends_insert _ _).trans induction
  | expose _ induction => exact (extends_mark _ _ _).trans induction
  | mergeMarks _ _ induction => exact (extends_mergeMarks _ _ _).trans induction

theorem nodup {before after : Catalogue} (grown : Grows before after)
    (distinct : before.realnames.Nodup) : after.realnames.Nodup := by
  induction grown with
  | refl => exact distinct
  | insert _ absent _ induction => exact nodup_insert induction absent
  | expose _ induction =>
      rw [realnames_mark]
      exact induction
  | mergeMarks _ _ induction =>
      rw [realnames_mergeMarks]
      exact induction

end Grows

end Catalogue

/-! ## Steps -/

namespace Walk

def stack (walk : Walk) : List Frame := walk.frame :: walk.below

/-- The lists that a step puts on the stack, each with its package, the topmost
first. The frames below the list that is being read stay as they are. -/
inductive Opens (below : List Frame) (before : Catalogue) :
    List (Nat × Field) → Walk → Catalogue → Prop
  | nothing (height : next.stack.length ≤ below.length + 1) :
      Opens below before [] next after
  | again {id : Nat} (held : before.package? id = some package)
      (hidden : package.marks.exposed = false)
      (exposed : (after.marksOf id).exposed = true)
      (stack : next.stack =
        .ofField package .requires depth marks :: kept :: below) :
      Opens below before [(id, .requires)] next after
  | first (held : after.package? before.size = some package)
      (stack : next.stack =
        .ofField package .requires depth marks ::
          .ofField package .requiresPrivate depth .none :: kept :: below) :
      Opens below before
        [(before.size, .requires), (before.size, .requiresPrivate)] next after

inductive Outcome (below : List Frame) (before : Session) :
    EStateM.Result Error Session Progress → Prop
  | finished : Outcome below before (.ok (.finished position) before)
  | continued
      (grown : before.resolution.catalogue.Grows after.resolution.catalogue)
      (opens : Opens below before.resolution.catalogue opened next
        after.resolution.catalogue) :
      Outcome below before (.ok (.continued next) after)
  | failed
      (grown : before.resolution.catalogue.Grows after.resolution.catalogue) :
      Outcome below before (.error error after)

section

variable {settings : Settings} {frame : Frame} {below : List Frame}
  {bounded : below.length < maxFrames} {token : String} {before : Session}

private theorem exposed_of_promoted {catalogue : Catalogue} {id : Nat}
    {marks : Marks} (known : id < catalogue.size) :
    (((catalogue.mark id ⟨false, true⟩).mergeMarks id marks).marksOf
      id).exposed = true := by
  rcases Catalogue.lt_size_iff.mp known with ⟨package, held⟩
  simp [Catalogue.marksOf, Catalogue.package?_mergeMarks,
    Catalogue.package?_mark, held, Marks.union]

private theorem revisit_outcome {id : Nat} {package : Package}
    (held : before.resolution.catalogue.package? id = some package) :
    Outcome below before
      (revisit settings frame below bounded token id package before) := by
  have known := Catalogue.lt_size_iff.mpr ⟨package, held⟩
  have promoted : Catalogue.Grows before.resolution.catalogue
      ((before.resolution.catalogue.mark id ⟨false, true⟩).mergeMarks id
        frame.marks) :=
    .mergeMarks (.expose .refl) (by simpa using known)
  rw [revisit, Resolve.catalogue_bind]
  split
  next exposes =>
    have hidden : package.marks.exposed = false := by
      simpa using (Bool.and_eq_true_iff.mp exposes).2
    dsimp only
    split
    · split
      · exact .continued promoted
          (.again held hidden (exposed_of_promoted known) rfl)
      · exact .failed (.expose .refl)
    · exact .continued promoted (.nothing (Nat.le_refl _))
  · exact .continued (.mergeMarks .refl known) (.nothing (Nat.le_refl _))

private theorem discover_outcome
    (absent : before.resolution.catalogue.find? (Location.realname token) =
      none) :
    Outcome below before
      (discover settings frame below bounded token before) := by
  unfold discover
  simp only [bind, EStateM.bind, Resolve.ofRun]
  cases found : Package.find settings token before.ledger with
  | error error ledger => exact .failed .refl
  | ok package ledger =>
      have loads : Package.Loads settings token package := ⟨_, _, found⟩
      have inserted : Catalogue.Grows before.resolution.catalogue
          (before.resolution.catalogue.insert package) :=
        .insert .refl (loads.realname_eq.1 ▸ absent) loads.realname_eq.2
      have enrolled : Catalogue.Grows before.resolution.catalogue
          (before.resolution.catalogue.enrol package frame.marks) :=
        .mergeMarks inserted (by simp)
      have held := Catalogue.package?_enrol_size before.resolution.catalogue
        package frame.marks
      dsimp only [Resolve.catalogue, Resolve.setCatalogue]
      split
      · split
        · exact .continued enrolled (.first held rfl)
        · exact .failed inserted
      · exact .continued enrolled (.nothing (Nat.le_refl _))

private theorem visit_outcome :
    Outcome below before (visit settings frame below bounded token before) := by
  rw [visit, Resolve.catalogue_bind]
  cases found : before.resolution.catalogue.find? (Location.realname token) with
  | none => exact discover_outcome found
  | some id =>
      rcases Catalogue.package?_of_find? found with ⟨package, held, _⟩
      simp only [held]
      exact revisit_outcome held

end

private theorem checkVersion_keeps (settings : Settings) (last : Option Nat)
    (comparator : Comparator) (wanted : String) (before : Session) :
    checkVersion settings last comparator wanted before = .ok () before ∨
      ∃ error, checkVersion settings last comparator wanted before =
        .error error before := by
  rw [checkVersion, Resolve.catalogue_bind]
  split
  · exact .inl rfl
  · cases last.bind before.resolution.catalogue.package? with
    | none => exact .inl rfl
    | some package =>
        dsimp only
        cases package.checkVersion comparator wanted with
        | ok => exact .inl rfl
        | error error => exact .inr ⟨error, rfl⟩

theorem step_outcome (settings : Settings) (walk : Walk) (before : Session) :
    Outcome walk.below before (step settings walk before) := by
  rcases walk with ⟨⟨tokens, position, depth, marks⟩, below, bounded⟩
  cases tokens with
  | nil =>
      cases below with
      | nil => exact .finished
      | cons frame below =>
          rw [step, closeList]
          cases position.pending with
          | none => exact .continued .refl (.nothing (by simp [stack]))
          | some comparator => exact .failed .refl
  | cons token tokens =>
      rw [step]
      cases position.pending with
      | some comparator =>
          simp only [bind, EStateM.bind]
          rcases checkVersion_keeps settings position.last comparator token
            before with passed | ⟨error, failed⟩
          · rw [passed]
            exact .continued .refl (.nothing (Nat.le_refl _))
          · rw [failed]
            exact .failed .refl
      | none =>
          cases Comparator.ofToken? token with
          | none => exact visit_outcome
          | some comparator =>
              dsimp only
              split
              · exact .failed .refl
              · exact .continued .refl (.nothing (Nat.le_refl _))

end Walk

end PkgConfig
