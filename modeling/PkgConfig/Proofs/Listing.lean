import PkgConfig.Proofs.Evaluation
import PkgConfig.Proofs.ExpansionOrder
import PkgConfig.Proofs.Loading
import PkgConfig.Proofs.LoadingCharges
import PkgConfig.Proofs.Location

namespace PkgConfig

/-! The listing of all packages and the look-up of one. Both take the file of a
name from the first directory that has it; they differ in which directories they
see it in. -/

/-! ## Results apart from the journal -/

namespace Run

def value? (run : Run α) (ledger : Ledger) : Option α :=
  match run ledger with
  | .ok value _ => some value
  | .error .. => none

/-- The same value with the same budget, or a failure on both sides. -/
inductive SameValue :
    EStateM.Result Error Ledger α → EStateM.Result Error Ledger α → Prop
  | success (budget : left.budget = right.budget) :
      SameValue (.ok value left) (.ok value right)
  | failure : SameValue (.error error left) (.error error' right)

private def Forgetful (run : Run α) : Prop :=
  ∀ left right : Ledger, left.budget = right.budget →
    SameValue (run left) (run right)

private theorem forgetful_compositional : Compositional @Forgetful where
  pure _ _ _ same := .success same
  throw _ _ _ _ := .failure
  bind {_ _ first second} earlier later := by
    intro left right same
    have compared := earlier left right same
    simp only [bind, EStateM.bind]
    generalize first left = leftResult at compared
    generalize first right = rightResult at compared
    cases compared with
    | failure => exact .failure
    | success budget => exact later _ _ _ budget
  note event := by
    intro left right same
    exact .success same
  charge bytes := by
    intro left right same
    simp only [charge, same]
    split
    · exact .success rfl
    · exact .failure

private theorem Forgetful.value?_eq {run : Run α} (forgetful : Forgetful run)
    {left right : Ledger} (same : left.budget = right.budget) :
    run.value? left = run.value? right := by
  have compared := forgetful left right same
  unfold value?
  generalize run left = leftResult at compared
  generalize run right = rightResult at compared
  cases compared with
  | success => rfl
  | failure => rfl

end Run

/-! ## Loading from a path -/

namespace Package

def open? (settings : Settings) (realname path : String) :
    Run (Option Package) := do
  match ← read? settings realname path with
  | some source =>
      let package ← ofSource settings realname path source
      return some package
  | none => return none

def loaded? (settings : Settings) (realname path : String) : Option Package :=
  ((open? settings realname path).value? settings.freshLedger).join

private theorem forgetful_open? (settings : Settings) (realname path : String) :
    Run.Forgetful (open? settings realname path) := by
  have parts := Run.forgetful_compositional
  apply parts.bind (parts.read? settings realname path)
  intro source
  cases source with
  | none => exact parts.pure none
  | some source =>
      exact parts.bind (parts.ofSource settings _ _ _) fun _ => parts.pure _

private theorem open?_value? {settings : Settings} (realname path : String)
    {before : Ledger} (unused : before.budget = settings.freshLedger.budget) :
    ((open? settings realname path).value? before).join =
      loaded? settings realname path := by
  rw [loaded?, (forgetful_open? settings realname path).value?_eq unused]

private theorem path_of_loaded? {settings : Settings} {realname path : String}
    {package : Package}
    (loaded : loaded? settings realname path = some package) :
    package.path = path := by
  rw [loaded?, Option.join_eq_some_iff, Run.value?] at loaded
  split at loaded
  next value after opened =>
    cases loaded
    rcases Run.bind_eq_ok_iff.mp opened with ⟨source, _, _, opened⟩
    cases source with
    | none => cases opened
    | some source =>
        rcases Run.bind_eq_ok_iff.mp opened with ⟨made, _, ofSource, finished⟩
        cases finished
        exact (ofSource_used ofSource).2.1
  · cases loaded

/-! ## Looking up -/

/-- The loader has a file at this path, which may be broken. -/
def Present (settings : Settings) (path : String) : Prop :=
  settings.loader.load path ≠ .absent

instance (settings : Settings) : DecidablePred (Present settings) :=
  fun _ => inferInstanceAs (Decidable (_ ≠ _))

end Package

private theorem Run.value?_some (run : Run α) (before : Ledger) :
    ((run >>= fun value => pure (some value)).value? before).join =
      run.value? before := by
  simp only [value?, bind, EStateM.bind]
  cases run before with
  | ok value after => rfl
  | error error after => rfl

namespace Package

def conclude (settings : Settings) (token : String) :
    Option Located → Run Package
  | some located =>
      ofSource settings (Location.realname token) located.path located.source
  | none => throw (.packageNotFound token)

private theorem locateAmong?_value? {settings : Settings} {token : String}
    (named : Location.realname token = token) {candidates : List String}
    {before : Ledger} (unused : before.budget = settings.freshLedger.budget) :
    (locateAmong? settings token candidates >>=
        conclude settings token).value? before =
      (candidates.find? (decide <| Present settings ·)).bind
        (loaded? settings token) := by
  induction candidates generalizing before with
  | nil => rfl
  | cons candidate rest induction =>
      have opened := @open?_value? settings token candidate
        (before.note (.tried candidate)) unused
      rw [List.find?_cons]
      cases content : settings.loader.load candidate with
      | absent =>
          have missing : ¬ Present settings candidate := by
            simp [Present, content]
          rw [decide_eq_false missing,
            ← @induction (before.note (.tried candidate)) unused]
          simp only [locateAmong?, read?, content, bind_assoc, pure_bind]
          rfl
      | failed cause =>
          have present : Present settings candidate := by
            simp [Present, content]
          rw [decide_eq_true present]
          simp only [Option.bind_some, ← opened, locateAmong?, open?, read?,
            content]
          rfl
      | contents text =>
          have present : Present settings candidate := by
            simp [Present, content]
          rw [decide_eq_true present]
          simp only [Option.bind_some, ← opened, locateAmong?, open?, read?,
            content, bind_assoc, pure_bind, conclude, named]
          have made := Run.value?_some (Run.charge text.utf8ByteSize >>= fun _ =>
            ofSource settings token candidate text)
            (before.note (.tried candidate))
          rw [bind_assoc] at made
          exact made.symm

def Holds (settings : Settings) (realname directory : String) : Prop :=
  Present settings (Location.metadataFile directory realname)

instance (settings : Settings) (realname : String) :
    DecidablePred (Holds settings realname) :=
  fun _ => inferInstanceAs (Decidable (Present _ _))

private theorem find_value? {settings : Settings} {realname : String}
    (ordinary : Location.isMetadataFile realname = false)
    (external : realname ≠ Builtin.name) :
    (find settings realname).value? settings.freshLedger =
      (settings.searchPath.directories.find?
        (Holds settings realname ·)).bind fun directory =>
          loaded? settings realname
            (Location.metadataFile directory realname) := by
  have named : Location.realname realname = realname := by
    simp [Location.realname, ordinary]
  have looked : find settings realname =
      locateAmong? settings realname (settings.searchPath.candidates realname)
        >>= conclude settings realname := by
    simp only [find, locate?, locateByName?, ordinary, external,
      Bool.false_eq_true, if_false]
    rfl
  rw [looked, @locateAmong?_value? settings realname named _
    settings.freshLedger rfl, SearchPath.candidates, List.find?_map,
    Option.bind_map]
  rfl

/-! ## Scanning -/

namespace Inventory

def take (settings : Settings) (directory : String) (inventory : Inventory)
    (realname : String) : Inventory :=
  if inventory.seen.contains realname then inventory
  else
    ⟨realname :: inventory.seen,
      match loaded? settings realname
          (Location.metadataFile directory realname) with
      | some package => inventory.packages.insert realname package
      | none => inventory.packages⟩

private theorem scanFile_eq_take (settings : Settings) (directory file : String)
    (inventory : Inventory) (events : List Event) :
    (scanFile settings directory file inventory events).1 =
      take settings directory inventory (Location.realname file) := by
  unfold scanFile take
  dsimp only
  split
  · rfl
  · rw [← @open?_value? settings (Location.realname file) _
      ⟨settings.freshLedger.budget, .consulted _ :: events⟩ rfl, Run.value?]
    split
    next package after found =>
      have opened : open? settings (Location.realname file) _
          ⟨settings.freshLedger.budget, .consulted _ :: events⟩ =
            .ok (some package) after := found
      rw [opened]
      rfl
    next after found =>
      have opened : open? settings (Location.realname file) _
          ⟨settings.freshLedger.budget, .consulted _ :: events⟩ =
            .ok none after := found
      rw [opened]
      rfl
    next error after found =>
      have opened : open? settings (Location.realname file) _
          ⟨settings.freshLedger.budget, .consulted _ :: events⟩ =
            .error error after := found
      rw [opened]
      rfl

private theorem foldl_scanFile (settings : Settings) (directory : String)
    (files : List String) (inventory : Inventory) (events : List Event) :
    (files.foldl (fun (inventory, events) file =>
        scanFile settings directory file inventory events)
      (inventory, events)).1 =
      (files.map Location.realname).foldl (take settings directory)
        inventory := by
  induction files generalizing inventory events with
  | nil => rfl
  | cons file rest induction =>
      rw [List.foldl_cons, List.map_cons, List.foldl_cons,
        ← scanFile_eq_take settings directory file inventory events]
      exact induction _ _

def Sound (inventory : Inventory) : Prop :=
  ∀ realname, realname ∉ inventory.seen →
    inventory.packages.find? realname = none

/-- What is settled about a name: nothing, that it has no package, or its
package. -/
def settled? (inventory : Inventory) (realname : String) :
    Option (Option Package) :=
  if realname ∈ inventory.seen then some (inventory.packages.find? realname)
  else none

private theorem Sound.join_settled? {inventory : Inventory}
    (sound : inventory.Sound) (realname : String) :
    (inventory.settled? realname).join =
      inventory.packages.find? realname := by
  unfold settled?
  split
  · rfl
  next unseen => exact (sound realname unseen).symm

section Take

variable {settings : Settings} {directory : String} {inventory : Inventory}

private theorem find?_taken (packages : Table String Package)
    (package? : Option Package) (realname other : String) :
    (match package? with
      | some package => packages.insert other package
      | none => packages).find? realname =
      if other = realname ∧ package?.isSome then package?
      else packages.find? realname := by
  cases package? with
  | none => simp
  | some package =>
      simp only [Table.find?_insert, Std.LawfulEqOrd.compare_eq_iff_eq,
        Option.isSome_some, and_true, @eq_comm _ other]

theorem Sound.take (sound : inventory.Sound) (realname : String) :
    (take settings directory inventory realname).Sound := by
  unfold Inventory.take
  split
  · exact sound
  · intro other unseen
    have different : realname ≠ other := by
      rintro rfl
      exact unseen List.mem_cons_self
    dsimp only
    rw [find?_taken, if_neg fun both => different both.1]
    exact sound other fun seen => unseen (List.mem_cons_of_mem _ seen)

/-- The first directory that lists a name settles it. -/
theorem Sound.settled?_take (sound : inventory.Sound)
    (realname other : String) :
    (Inventory.take settings directory inventory other).settled? realname =
      (inventory.settled? realname).or
        (if other = realname then
          some (loaded? settings realname
            (Location.metadataFile directory realname))
        else none) := by
  by_cases seen : other ∈ inventory.seen
  · have unchanged : Inventory.take settings directory inventory other =
        inventory := by
      simp [Inventory.take, seen]
    rw [unchanged]
    split
    next same => simp [settled?, ← same, seen]
    next different => simp
  · unfold Inventory.take settled?
    simp only [List.contains_eq_mem, seen, decide_false, Bool.false_eq_true,
      if_false, find?_taken, List.mem_cons]
    by_cases same : other = realname
    · subst same
      simp only [seen, true_or, if_true, if_false, true_and, Option.none_or]
      split
      · rfl
      next missing =>
        rw [sound other seen, Option.not_isSome_iff_eq_none.mp missing]
    · simp [same, Ne.symm same]

private theorem Sound.foldl_take (sound : inventory.Sound)
    (realnames : List String) :
    (realnames.foldl (Inventory.take settings directory) inventory).Sound ∧
      ∀ realname,
        (realnames.foldl (Inventory.take settings directory)
            inventory).settled? realname =
          (inventory.settled? realname).or
            (if realname ∈ realnames then
              some (loaded? settings realname
                (Location.metadataFile directory realname))
            else none) := by
  induction realnames generalizing inventory with
  | nil => simp [sound]
  | cons other rest induction =>
      rw [List.foldl_cons]
      rcases induction (sound.take other) with ⟨later, settles⟩
      refine ⟨later, fun realname => ?_⟩
      rw [settles, sound.settled?_take, Option.or_assoc]
      by_cases same : other = realname
      · simp [same]
      · simp [same, Ne.symm same]

end Take

end Inventory

/-! ## All directories -/

def Lists (settings : Settings) (realname directory : String) : Prop :=
  realname ∈ (settings.loader.list directory).map Location.realname

instance (settings : Settings) (realname : String) :
    DecidablePred (Lists settings realname) :=
  fun _ => inferInstanceAs (Decidable (_ ∈ _))

theorem Inventory.Sound.scanDirectory {inventory : Inventory}
    (sound : inventory.Sound) (settings : Settings) (directory : String)
    (events : List Event) :
    (Inventory.scanDirectory settings directory inventory events).1.Sound ∧
      ∀ realname,
        (Inventory.scanDirectory settings directory inventory
            events).1.settled? realname =
          (inventory.settled? realname).or
            (if Lists settings realname directory then
              some (loaded? settings realname
                (Location.metadataFile directory realname))
            else none) := by
  have scanned : (Inventory.scanDirectory settings directory inventory
      events).1 = ((settings.loader.list directory).map
        Location.realname).foldl (Inventory.take settings directory)
        inventory :=
    Inventory.foldl_scanFile settings directory _ inventory _
  rw [scanned]
  exact sound.foldl_take _

private theorem Inventory.Sound.scanDirectories (settings : Settings)
    (directories : List String) {inventory : Inventory} (events : List Event)
    (sound : inventory.Sound) :
    let scanned := (directories.foldl (fun (inventory, events) directory =>
        Inventory.scanDirectory settings directory inventory events)
      (inventory, events)).1
    scanned.Sound ∧ ∀ realname,
      scanned.settled? realname =
        (inventory.settled? realname).or
          ((directories.find? (Lists settings realname ·)).map fun directory =>
            loaded? settings realname
              (Location.metadataFile directory realname)) := by
  induction directories generalizing inventory events with
  | nil => exact ⟨sound, fun realname => by simp⟩
  | cons directory rest induction =>
      rcases sound.scanDirectory settings directory events with
        ⟨between, first⟩
      rcases induction _ between with ⟨later, others⟩
      refine ⟨later, fun realname => (others realname).trans ?_⟩
      rw [first, Option.or_assoc, List.find?_cons]
      by_cases lists : Lists settings realname directory
      · rw [if_pos lists, decide_eq_true lists]
        rfl
      · rw [if_neg lists, decide_eq_false lists, Option.none_or]

private theorem scanAll_find? (settings : Settings) (realname : String)
    (before : Ledger) :
    ∃ packages after, scanAll settings before = .ok packages after ∧
      packages.find? realname =
        (settings.searchPath.directories.find?
          (Lists settings realname ·)).bind fun directory =>
          loaded? settings realname
            (Location.metadataFile directory realname) := by
  have empty : Inventory.empty.Sound := fun _ _ => rfl
  rcases empty.scanDirectories settings settings.searchPath.directories
    before.events with ⟨sound, settles⟩
  refine ⟨_, _, rfl, ?_⟩
  have unsettled : Inventory.empty.settled? realname = none := rfl
  rw [← sound.join_settled?, settles, unsettled, Option.none_or]
  cases settings.searchPath.directories.find? (Lists settings realname ·) with
  | none => rfl
  | some directory => rfl

end Package

/-! ## Tables of files -/

namespace FileTable

variable {files : FileTable}

private theorem mem_keys_iff {path : String} :
    path ∈ files.keys ↔ files.load path ≠ .absent := by
  rw [Table.keys, List.mem_map, load]
  constructor
  · rintro ⟨⟨_, text⟩, listed, rfl⟩
    rw [Table.find?, (Table.lookupEntry_eq_some_iff files.ascending).mpr listed]
    simp
  · intro present
    cases found : files.find? path with
    | none => simp [found] at present
    | some text =>
        exact ⟨(path, text),
          (Table.lookupEntry_eq_some_iff files.ascending).mp found, rfl⟩

private theorem mem_list_iff {directory realname : String}
    (nonempty : realname ≠ "") :
    realname ∈ (files.list directory).map Location.realname ↔
      ∃ path ∈ files.keys,
        Location.directory path = trimSeparators directory ∧
        Location.fileName path = realname ++ ".pc" := by
  have named : ∀ path, Location.isMetadataFile (Location.fileName path) = true ∧
      Location.realname (Location.fileName path) = realname ↔
        Location.fileName path = realname ++ ".pc" := fun path =>
    Location.isMetadataFile_and_realname_iff (Location.isFlat_fileName path)
      nonempty
  simp only [list, List.mem_map, List.mem_filterMap]
  constructor
  · intro ⟨file, ⟨path, listed, shown⟩, same⟩
    split at shown
    next both =>
      cases shown
      exact ⟨path, listed, both.1, (named path).mp ⟨both.2, same⟩⟩
    · cases shown
  · intro ⟨path, listed, inside, written⟩
    rcases (named path).mpr written with ⟨metadata, same⟩
    exact ⟨_, ⟨path, listed, if_pos ⟨inside, metadata⟩⟩, same⟩

def IsTrimmed (directory : String) : Prop :=
  directory ≠ "" ∧ trimSeparators directory = directory

/-- In such a directory a file is listed exactly where it is looked for. -/
theorem mem_list_iff_of_isTrimmed
    (slashes : ∀ path ∈ files.keys, '\\' ∉ path.toList)
    {directory realname : String} (trimmed : IsTrimmed directory)
    (nonempty : realname ≠ "") (flat : Location.IsFlat realname) :
    realname ∈ (files.list directory).map Location.realname ↔
      Location.metadataFile directory realname ∈ files.keys := by
  rw [mem_list_iff nonempty, trimmed.2]
  constructor
  · intro ⟨path, listed, inside, written⟩
    rcases Location.parts path with ⟨empty, _⟩ | ⟨separator, separates, whole⟩
    · exact absurd (inside.symm.trans empty) trimmed.1
    · have slash : separator = '/' := by
        have among : separator ∈ path.toList := by simp [whole]
        rcases Bool.or_eq_true_iff.mp separates with forward | backward
        · exact eq_of_beq forward
        · exact absurd (eq_of_beq backward ▸ among) (slashes path listed)
      have same : path = Location.metadataFile directory realname := by
        apply String.toList_inj.mp
        rw [whole, slash, inside, written]
        simp [Location.metadataFile]
      exact same ▸ listed
  · intro listed
    rcases Location.parts_metadataFile directory flat with ⟨inside, written⟩
    exact ⟨_, listed, inside, written⟩

end FileTable

/-! ## Agreement -/

private theorem find?_eq_some_and_iff {first second : α → Bool}
    {entries : List α} {entry : α} :
    entries.find? first = some entry ∧ entries.find? second = some entry ↔
      entries.find? (fun other => first other || second other) = some entry ∧
        first entry = true ∧ second entry = true := by
  induction entries with
  | nil => simp
  | cons head rest induction =>
      simp only [List.find?_cons]
      cases left : first head with
      | false =>
          cases right : second head with
          | false => exact induction
          | true =>
              refine ⟨fun ⟨found, same⟩ => ?_, fun ⟨same, found, _⟩ => ?_⟩
              · cases same
                exact absurd (List.find?_some found) (by simp [left])
              · cases same
                exact absurd found (by simp [left])
      | true =>
          cases right : second head with
          | false =>
              refine ⟨fun ⟨same, found⟩ => ?_, fun ⟨same, _, found⟩ => ?_⟩
              · cases same
                exact absurd (List.find?_some found) (by simp [right])
              · cases same
                exact absurd found (by simp [right])
          | true =>
              refine ⟨fun ⟨same, _⟩ => ?_, fun ⟨same, _, _⟩ => ⟨same, same⟩⟩
              cases same
              exact ⟨rfl, left, right⟩

private theorem find?_bind_eq_iff {first second : α → Bool}
    {load : α → Option β}
    (apart : ∀ {left right value}, load left = some value →
      load right = some value → left = right) {entries : List α} :
    (entries.find? first).bind load = (entries.find? second).bind load ↔
      (entries.find? first).bind load = none ∧
        (entries.find? second).bind load = none ∨
      ∃ entry,
        entries.find? (fun other => first other || second other) =
          some entry ∧
        first entry = true ∧ second entry = true := by
  constructor
  · intro same
    cases found : (entries.find? first).bind load with
    | none => exact .inl ⟨rfl, same.symm.trans found⟩
    | some value =>
        rcases Option.bind_eq_some_iff.mp found with ⟨left, stops, loaded⟩
        rcases Option.bind_eq_some_iff.mp (same.symm.trans found) with
          ⟨right, stops', loaded'⟩
        cases apart loaded loaded'
        exact .inr ⟨left, find?_eq_some_and_iff.mp ⟨stops, stops'⟩⟩
  · intro alike
    rcases alike with ⟨nothing, nothing'⟩ | ⟨entry, either, both⟩
    · exact nothing.trans nothing'.symm
    · rcases find?_eq_some_and_iff.mpr ⟨either, both⟩ with ⟨stops, stops'⟩
      rw [stops, stops']

/-- Where the two agree about a name: either both have nothing, or the first
directory in which one of them sees the name is one where both do. They agree
about every name if no directory on the search path is written with a separator
at its end. -/
theorem listing_agrees_iff {settings : Settings} {files : FileTable}
    (table : settings.loader = files.loader)
    (slashes : ∀ path ∈ files.keys, '\\' ∉ path.toList)
    {realname : String} (nonempty : realname ≠ "")
    (flat : Location.IsFlat realname)
    (ordinary : Location.isMetadataFile realname = false)
    (external : realname ≠ Builtin.name) (before : Ledger) :
    ∃ packages after, Package.scanAll settings before = .ok packages after ∧
      let listed := packages.find? realname
      let found := (Package.find settings realname).value? settings.freshLedger
      (listed = found ↔ listed = none ∧ found = none ∨
        ∃ directory,
          settings.searchPath.directories.find? (fun directory =>
            Package.Lists settings realname directory ||
              Package.Holds settings realname directory) = some directory ∧
          Package.Lists settings realname directory ∧
          Package.Holds settings realname directory) ∧
      ((∀ directory ∈ settings.searchPath.directories,
        FileTable.IsTrimmed directory) → listed = found) := by
  rcases Package.scanAll_find? settings realname before with
    ⟨packages, after, scanned, listing⟩
  refine ⟨packages, after, scanned, ?_⟩
  dsimp only
  rw [listing, Package.find_value? ordinary external]
  constructor
  · have apart : ∀ {left right package},
        Package.loaded? settings realname
          (Location.metadataFile left realname) = some package →
        Package.loaded? settings realname
          (Location.metadataFile right realname) = some package →
        left = right := by
      intro left right package loaded loaded'
      rw [← (Location.parts_metadataFile left flat).1,
        ← (Location.parts_metadataFile right flat).1,
        ← Package.path_of_loaded? loaded, ← Package.path_of_loaded? loaded']
    have alike := @find?_bind_eq_iff _ _
      (decide <| Package.Lists settings realname ·)
      (decide <| Package.Holds settings realname ·) _ apart
      settings.searchPath.directories
    simpa only [decide_eq_true_eq] using alike
  · intro trimmed
    have alike : settings.searchPath.directories.find?
          (Package.Lists settings realname ·) =
        settings.searchPath.directories.find?
          (Package.Holds settings realname ·) := by
      apply List.find?_congr
      intro directory among
      rw [decide_eq_decide, Package.Lists, Package.Holds, Package.Present,
        table]
      exact (FileTable.mem_list_iff_of_isTrimmed slashes
        (trimmed directory among) nonempty flat).trans FileTable.mem_keys_iff
    rw [alike]

/-! A file that is looked for on a path that names its directory twice, once with
a separator at the end. -/

namespace NamedTwice

def files : FileTable := Table.ofList [FileTable.metadataFile "r" ""]

def settings (path : String) : Settings :=
  { Choices.none with fixedPath := some path }.settings .empty files.loader

/-- The look-up passes over the first spelling of the directory. The listing sees
the name there, finds no file at `/p//r.pc`, and is through with the name. -/
theorem found_and_not_listed :
    ((Package.find (settings "/p/:/p") "r").value?
        (settings "/p/:/p").freshLedger).map Package.path =
      some "/p/r.pc" ∧
    ((Package.scanAll (settings "/p/:/p")).value?
        (settings "/p/:/p").freshLedger).map (·.keys) = some [] := by
  constructor
  · cbv
  · cbv

/-- Without the separator both take the file. -/
theorem found_and_listed :
    ∃ packages after package,
      Package.scanAll (settings "/q:/p") (settings "/q:/p").freshLedger =
        .ok packages after ∧
      packages.find? "r" = some package ∧ package.path = "/p/r.pc" := by
  have slashes : ∀ path ∈ files.keys, '\\' ∉ path.toList := by
    have keys : files.keys = ["/p/r.pc"] := by cbv
    rw [keys]
    simp
  have flat : Location.IsFlat "r" := by
    simp [Location.IsFlat, Text.isSeparator]
  have trimmed : ∀ directory ∈ (settings "/q:/p").searchPath.directories,
      FileTable.IsTrimmed directory := by
    have directories : (settings "/q:/p").searchPath.directories =
        ["/q", "/p"] := by
      cbv
    rw [directories]
    simp [FileTable.IsTrimmed]
    decide
  have found : ((Package.find (settings "/q:/p") "r").value?
      (settings "/q:/p").freshLedger).map Package.path = some "/p/r.pc" := by
    cbv
  rcases @listing_agrees_iff (settings "/q:/p") files rfl slashes "r"
    (by decide) flat (by decide) (by decide) (settings "/q:/p").freshLedger
    with ⟨packages, after, scanned, _, agree⟩
  rcases Option.map_eq_some_iff.mp found with ⟨package, value, place⟩
  exact ⟨packages, after, package, scanned, (agree trimmed).trans value, place⟩

end NamedTwice

end PkgConfig
