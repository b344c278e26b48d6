import PkgConfig.Proofs.ArgumentSplitting
import PkgConfig.Proofs.Evaluation
import PkgConfig.Proofs.Loading
import PkgConfig.Proofs.SystemDirectories

namespace PkgConfig

/-! The same computation with a smaller budget. Nothing but a charge ever looks
at the capacity, so both computations go through the same states until a charge
is refused for the smaller budget. -/

/-! ## Tighter states -/

/-- The same usage and journal under a capacity that is no larger. -/
structure Ledger.Tighter (tight ample : Ledger) : Prop where
  capacity : tight.budget.capacity ≤ ample.budget.capacity
  used : tight.used = ample.used
  events : tight.events = ample.events

/-- The budget was too small for a request. Up to then the journal is an earlier
part of another one. -/
def Ledger.StoppedWithin (ledger : Ledger) (events : List Event) : Prop :=
  ∃ requested earlier,
    ledger.budget.capacity < ledger.used + requested ∧
      ledger.events =
        .exhausted ledger.used ledger.budget.capacity requested :: earlier ∧
      earlier <:+ events

class Budgeted (σ : Type) where
  ledger : σ → Ledger
  Tighter : σ → σ → Prop

instance : Budgeted Ledger where
  ledger ledger := ledger
  Tighter := Ledger.Tighter

instance : Budgeted Session where
  ledger := Session.ledger
  Tighter tight ample :=
    tight.resolution = ample.resolution ∧ tight.ledger.Tighter ample.ledger

def finalLedger {σ α : Type} [Budgeted σ] :
    EStateM.Result Error σ α → Ledger
  | .ok _ after => Budgeted.ledger after
  | .error _ after => Budgeted.ledger after

/-- The result is that of a larger budget, or memory has run out on the way
there. -/
inductive Tracks {σ α : Type} [Budgeted σ] :
    EStateM.Result Error σ α → EStateM.Result Error σ α → Prop
  | ok {value : α} {tight ample : σ} (tighter : Budgeted.Tighter tight ample) :
      Tracks (.ok value tight) (.ok value ample)
  | error {error : Error} {tight ample : σ}
      (tighter : Budgeted.Tighter tight ample) :
      Tracks (.error error tight) (.error error ample)
  | outOfMemory {tight : σ} {ample : EStateM.Result Error σ α}
      (stopped : (Budgeted.ledger tight).StoppedWithin
        (finalLedger ample).events) :
      Tracks (.error .outOfMemory tight) ample

/-- Whatever the budget is, the journal only grows, and with a smaller budget
nothing happens that does not happen with a larger one. -/
structure Steady {σ α : Type} [Budgeted σ] (computation : EStateM Error σ α) :
    Prop where
  keeps (before : σ) :
    (Budgeted.ledger before).events <:+
      (finalLedger (computation before)).events
  tracks {tight ample : σ} (tighter : Budgeted.Tighter tight ample) :
    Tracks (computation tight) (computation ample)

/-! ## Sequencing -/

namespace Steady

section

variable {σ : Type} [Budgeted σ] {α β : Type}

theorem pure (value : α) : Steady (Pure.pure value : EStateM Error σ α) where
  keeps _ := List.suffix_rfl
  tracks := .ok

theorem throw (error : Error) :
    Steady (MonadExcept.throw error : EStateM Error σ α) where
  keeps _ := List.suffix_rfl
  tracks := .error

theorem bind {first : EStateM Error σ α} {second : α → EStateM Error σ β}
    (earlier : Steady first) (later : ∀ value, Steady (second value)) :
    Steady (first >>= second) where
  keeps before := by
    have start := earlier.keeps before
    simp only [Bind.bind, EStateM.bind]
    cases ran : first before with
    | ok value between =>
        rw [ran] at start
        exact start.trans ((later value).keeps between)
    | error error after =>
        rw [ran] at start
        exact start
  tracks {tight ample} tighter := by
    have start := earlier.tracks tighter
    simp only [Bind.bind, EStateM.bind]
    generalize first tight = small at start
    cases ran : first ample with
    | ok value between =>
        rw [ran] at start
        cases start with
        | ok tighter => exact (later value).tracks tighter
        | outOfMemory stopped =>
            rcases stopped with ⟨requested, events, short, newest, within⟩
            have more := (later value).keeps between
            exact .outOfMemory
              ⟨requested, events, short, newest, within.trans more⟩
    | error error after =>
        rw [ran] at start
        cases start with
        | error tighter => exact .error tighter
        | outOfMemory stopped => exact .outOfMemory stopped

theorem foldlM {step : β → α → EStateM Error σ β}
    (each : ∀ state item, Steady (step state item)) (items : List α)
    (state : β) : Steady (items.foldlM step state) := by
  induction items generalizing state with
  | nil => exact pure state
  | cons item rest induction =>
      rw [List.foldlM_cons]
      exact bind (each state item) induction

theorem mapM {step : α → EStateM Error σ β} (each : ∀ item, Steady (step item))
    (items : List α) : Steady (items.mapM step) := by
  induction items with
  | nil => exact pure []
  | cons item rest induction =>
      rw [List.mapM_cons]
      exact bind (each item) fun _ => bind induction fun _ => pure _

end

/-! ## Charges -/

theorem note (event : Event) : Steady (Run.note event) where
  keeps _ := List.suffix_cons _ _
  tracks tighter :=
    .ok ⟨tighter.capacity, tighter.used,
      congrArg (event :: ·) tighter.events⟩

private theorem charge_keeps (bytes : Nat) (before : Ledger) :
    before.events <:+ (finalLedger (Run.charge bytes before)).events := by
  rcases Run.charge_cases bytes before with
    ⟨after, charged, same⟩ | ⟨_, refused⟩
  · rw [charged]
    exact ⟨[], same.events.symm⟩
  · rw [refused]
    exact List.suffix_cons _ _

theorem charge (bytes : Nat) : Steady (Run.charge bytes) where
  keeps := charge_keeps bytes
  tracks {tight ample} tighter := by
    rcases tighter with ⟨capacity, used, events⟩
    rcases Run.charge_cases bytes tight with
      ⟨small, charged, spent⟩ | ⟨short, refused⟩
    · have room := spent.fits
      have more : ample.used + bytes ≤ ample.budget.capacity := by omega
      rcases Ledger.Charged.exists_of_fits more with ⟨large, also⟩
      rw [charged, Run.charge_eq_ok_iff.mpr also]
      refine .ok ⟨?_, ?_, ?_⟩
      · rw [spent.capacity, also.capacity]
        exact capacity
      · rw [spent.used, also.used, used]
      · rw [spent.events, also.events, events]
    · rw [refused]
      have kept := charge_keeps bytes ample
      rw [← events] at kept
      exact .outOfMemory ⟨bytes, tight.events, short, rfl, kept⟩

theorem used : Steady Run.used where
  keeps _ := List.suffix_rfl
  tracks {tight ample} tighter := by
    unfold Run.used
    rw [tighter.used]
    exact .ok tighter

theorem release (mark : Nat) : Steady (Run.release mark) where
  keeps _ := List.suffix_rfl
  tracks tighter :=
    .ok ⟨tighter.capacity, congrArg (min · mark) tighter.used, tighter.events⟩

/-! ## Resolution -/

theorem loading : Run.Compositional Steady where
  pure := pure
  throw _ := throw _
  bind := bind
  note := note
  charge := charge

theorem ofRun {α : Type} {run : Run α} (steady : Steady run) :
    Steady (Resolve.ofRun run) where
  keeps before := by
    have kept := steady.keeps before.ledger
    unfold Resolve.ofRun
    cases ran : run before.ledger <;>
    · rw [ran] at kept
      exact kept
  tracks {tight ample} tighter := by
    have tracked := steady.tracks tighter.2
    unfold Resolve.ofRun
    generalize run tight.ledger = small at tracked
    generalize run ample.ledger = large at tracked
    cases tracked with
    | ok after => exact .ok ⟨tighter.1, after⟩
    | error after => exact .error ⟨tighter.1, after⟩
    | outOfMemory stopped =>
        apply Tracks.outOfMemory
        cases large <;> exact stopped

theorem reading (settings : Settings) :
    Resolve.Compositional settings Steady where
  pure := pure
  throw := throw
  bind := bind
  catalogue := {
    keeps := fun _ => List.suffix_rfl
    tracks := by
      intro tight ample tighter
      unfold Resolve.catalogue
      rw [tighter.1]
      exact .ok tighter }
  setCatalogue catalogue := {
    keeps := fun _ => List.suffix_rfl
    tracks := by
      intro tight ample tighter
      unfold Resolve.setCatalogue
      rw [tighter.1]
      exact .ok ⟨rfl, tighter.2⟩ }
  note event := (note event).ofRun
  find token := (loading.find settings token).ofRun

theorem setPosition (position : Position) :
    Steady (Resolve.setPosition position) where
  keeps _ := List.suffix_rfl
  tracks tighter := by
    unfold Resolve.setPosition
    rw [tighter.1]
    exact .ok ⟨rfl, tighter.2⟩

theorem pushTokens (settings : Settings) (tokens : List String) :
    Steady (Resolve.pushTokens settings tokens) := by
  have read := fun position => bind
    (foldlM ((reading settings).readToken 1 0 .named) tokens position)
    setPosition
  have handed : ∀ session, Resolve.pushTokens settings tokens session =
      (tokens.foldlM (RecursiveWalk.readToken settings 1 0 .named)
        session.resolution.position >>= Resolve.setPosition) session := by
    intro session
    simp only [Resolve.pushTokens, Bind.bind, EStateM.bind]
    split
    next ran => rw [ran]; rfl
    next ran => rw [ran]
  constructor
  · intro before
    rw [handed]
    exact (read _).keeps before
  · intro tight ample tighter
    rw [handed, handed, tighter.1]
    exact (read _).tracks tighter

theorem pushAll (settings : Settings) (arguments : List String) :
    Steady (Resolve.pushAll settings arguments) := by
  induction arguments with
  | nil => exact pure ()
  | cons argument rest induction =>
      refine bind ?_ fun _ => induction
      rw [Resolve.push_eq_pushTokens]
      exact pushTokens settings _

theorem resolve (settings : Settings) (arguments : List String) :
    Steady (Catalogue.resolve settings arguments) := by
  have pushed := pushAll settings arguments
  constructor
  · intro before
    have kept := pushed.keeps ⟨.empty, before⟩
    unfold Catalogue.resolve
    split
    next ran =>
      rw [ran] at kept
      split <;> exact kept
    next ran =>
      rw [ran] at kept
      exact kept
  · intro tight ample tighter
    have start : Budgeted.Tighter (Session.mk .empty tight)
        (Session.mk .empty ample) := ⟨rfl, tighter⟩
    have tracked := pushed.tracks start
    unfold Catalogue.resolve
    generalize Resolve.pushAll settings arguments ⟨.empty, tight⟩ = small
      at tracked
    generalize Resolve.pushAll settings arguments ⟨.empty, ample⟩ = large
      at tracked
    cases tracked with
    | ok after =>
        simp only [after.1]
        split
        · exact .ok after.2
        · exact .error after.2
    | error after => exact .error after.2
    | outOfMemory stopped =>
        apply Tracks.outOfMemory
        cases large with
        | ok _ session => dsimp only; split <;> exact stopped
        | error _ session => exact stopped

/-! ## Emission -/

theorem chargeEach (text : List Char) : Steady (Run.chargeEach text) := by
  induction text with
  | nil => exact pure ()
  | cons character rest induction => exact bind (charge _) fun _ => induction

private theorem chargeWord (word : Text.Word) : Steady word.charge := by
  refine bind used fun mark => bind (chargeEach _) fun _ => ?_
  split
  · exact pure true
  · exact bind (release mark) fun _ => pure false

theorem fieldWords (realname : String) (words : List String)
    (text : List Char) : Steady (PkgConfig.fieldWords realname words text) := by
  induction measured : text.length using Nat.strongRecOn generalizing
    words text with
  | ind length shorter =>
      rw [PkgConfig.fieldWords]
      split
      · exact pure _
      next nonempty =>
        have less := Text.Word.length_rest_ofText nonempty
        refine bind (chargeWord _) fun closed => ?_
        split
        · exact shorter _ (measured ▸ less) _ _ rfl
        · exact throw _

theorem appendFields (list : ArgumentList) (package : Package)
    (filter : Filter) (fields : List Field) :
    Steady (list.appendFields package filter fields) := by
  induction fields generalizing list with
  | nil => exact pure list
  | cons field rest induction =>
      exact bind (bind (fieldWords _ _ _) fun _ => pure _) induction

theorem appendPackages (settings : Settings) (flagClass : FlagClass)
    (filter : Filter) (list : ArgumentList) (packages : List Package) :
    Steady (flagClass.appendPackages settings filter list packages) := by
  induction packages generalizing list with
  | nil => exact pure list
  | cons package rest induction =>
      exact bind (appendFields _ _ _ _) induction

theorem excludeDirectory (list : ArgumentList) (letter : Char)
    (directory : String) :
    Steady (list.excludeDirectory letter directory) := by
  refine bind (charge _) fun _ => bind (chargeWord _) fun closed => ?_
  split
  · exact bind (note _) fun _ => pure _
  · exact pure list

theorem collect (settings : Settings) (flagClass : FlagClass)
    (catalogue : Catalogue) (filter : Filter) :
    Steady (flagClass.collect settings catalogue filter) := by
  unfold FlagClass.collect
  split
  · exact appendPackages _ _ _ _ _
  · rw [← bind_assoc, ArgumentList.excludeSystem,
      ArgumentList.excludeDirectories_complete]
    exact bind (foldlM (fun list directory => excludeDirectory list _ directory)
      _ _) fun _ => appendPackages _ _ _ _ _

end Steady

/-! ## Whole runs -/

def resolveAndCollect (settings : Settings) (arguments : List String)
    (requests : List (FlagClass × Filter)) :
    Run (Catalogue × List ArgumentList) := do
  let catalogue ← Catalogue.resolve settings arguments
  let lists ← requests.mapM fun (flagClass, filter) =>
    flagClass.collect settings catalogue filter
  return (catalogue, lists)

/-- With a smaller budget a run gives the same packages, the same arguments and
the same usage, or the same error, unless it is stopped on the way there. -/
theorem resolveAndCollect_tracks (settings : Settings)
    (arguments : List String) (requests : List (FlagClass × Filter))
    {small large : Nat} (smaller : small ≤ large) :
    Tracks (resolveAndCollect settings arguments requests (.fresh small))
      (resolveAndCollect settings arguments requests (.fresh large)) := by
  have steady : Steady (resolveAndCollect settings arguments requests) := by
    refine .bind (.resolve settings arguments) fun catalogue => ?_
    refine .bind (.mapM (fun request => ?_) requests) fun lists => .pure _
    exact .collect settings request.1 catalogue request.2
  exact steady.tracks ⟨smaller, rfl, rfl⟩

/-! ## An exact fit -/

namespace ExactFit

def settings : Settings :=
  FileTable.settings .none [FileTable.metadataFile "x" "Libs: -lx\n"]

def run : Run (Catalogue × List ArgumentList) :=
  resolveAndCollect settings ["x"] [(.libs, .any)]

def outcome :
    EStateM.Result Error Ledger (Catalogue × List ArgumentList) →
      Except Error (List String × List (List String) × Nat)
  | .ok (catalogue, lists) after =>
      .ok (catalogue.realnames, lists.map ArgumentList.survivors, after.used)
  | .error error _ => .error error

private theorem outcome_enough :
    outcome (run (.fresh 76)) = .ok (["x"], [["-lx"]], 76) := by
  rw [run, resolveAndCollect, Catalogue.resolve_singleton]
  cbv

private theorem outcome_short : outcome
    (run (.fresh 75)) = .error .outOfMemory := by
  rw [run, resolveAndCollect, Catalogue.resolve_singleton]
  cbv

/-- One byte less stops the run on the way to the same arguments. -/
theorem resolveAndCollect_tracks_short :
    75 ≤ 76 ∧ ∃ tight catalogue list ample,
      run (.fresh 75) = .error .outOfMemory tight ∧
      run (.fresh 76) = .ok (catalogue, [list]) ample ∧
      list.survivors = ["-lx"] ∧ ample.used = 76 ∧
      tight.StoppedWithin ample.events := by
  have smaller : 75 ≤ 76 := by decide
  have tracked := resolveAndCollect_tracks settings ["x"] [(.libs, .any)]
    smaller
  have enough := outcome_enough
  have short := outcome_short
  change Tracks (run (.fresh 75)) (run (.fresh 76)) at tracked
  generalize run (.fresh 75) = small at tracked short ⊢
  generalize run (.fresh 76) = large at tracked enough ⊢
  rcases large with ⟨⟨catalogue, lists⟩, ample⟩ | ⟨error, ample⟩
  · simp only [outcome, Except.ok.injEq, Prod.mk.injEq] at enough
    rcases enough with ⟨_, rendered, used⟩
    rcases List.map_eq_singleton_iff.mp rendered with ⟨list, rfl, survivors⟩
    cases tracked with
    | ok tighter => cases short
    | outOfMemory stopped =>
        exact ⟨smaller, _, catalogue, list, ample, rfl, rfl, survivors, used,
          stopped⟩
  · cases enough

end ExactFit

end PkgConfig
