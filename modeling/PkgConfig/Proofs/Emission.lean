import PkgConfig.Proofs.SystemDirectories

namespace PkgConfig

/-! What is collected from the fields of packages: their words, pushed in order
onto a list in which system directories are excluded. -/

/-! ## Words -/

def Text.words (text : List Char) : List String :=
  if _nonempty : text = [] then []
  else
    let word := Text.Word.ofText text
    if word.escaped.isEmpty then Text.words word.rest
    else String.ofList word.escaped :: Text.words word.rest
termination_by text.length
decreasing_by all_goals exact Text.Word.length_rest_ofText ‹_›

def Package.words (package : Package) (field : Field) : List String :=
  Text.words (package.field field).toList

private theorem fieldWords_eq_ok {realname : String}
    {words result : List String} {text : List Char} {before after : Ledger}
    (split : fieldWords realname words text before = .ok result after) :
    result = words.reverse ++ Text.words text := by
  induction measured : text.length using Nat.strongRecOn generalizing
    words text before with
  | ind length shorter =>
      rw [fieldWords] at split
      rw [Text.words]
      by_cases empty : text = []
      · simp only [empty, dif_pos] at split ⊢
        cases split
        exact (List.append_nil _).symm
      · simp only [empty, dif_neg, not_false_eq_true] at split ⊢
        have less := Text.Word.length_rest_ofText empty
        rw [measured] at less
        rcases Run.bind_eq_ok_iff.mp split with ⟨closed, _, _, split⟩
        cases closed with
        | false =>
            simp only [Bool.false_eq_true, if_false] at split
            cases split
        | true =>
            simp only [if_true] at split
            have rest := shorter _ less split rfl
            rw [rest]
            split
            · rfl
            · rw [List.reverse_cons, List.append_assoc, List.singleton_append]

def Package.splitWords (package : Package) (field : Field) :
    List (List Char) :=
  Text.splitWords (package.field field).toList

def Package.wordBytes (package : Package) (field : Field) : Nat :=
  Text.byteLength (package.splitWords field).flatten

structure Package.Splits (package : Package) (field : Field) : Prop where
  closed : Text.openAtEnd none (package.field field).toList = none
  words_eq : package.words field =
    (package.splitWords field).map String.ofList

/-! ## Lists -/

namespace ArgumentList

theorem appendField_eq_ok {list result : ArgumentList} {package : Package}
    {field : Field} {filter : Filter} {before after : Ledger}
    (appended : list.appendField package field filter before =
      .ok result after) :
    package.Splits field ∧
      result =
        ((package.words field).filter filter.accepts).foldl push list ∧
      before.Charged (package.wordBytes field) after := by
  rcases Run.bind_eq_ok_iff.mp appended with ⟨words, _, split, finished⟩
  rcases fieldWords_charged split with ⟨closed, same, charged⟩
  rw [fieldWords_eq_ok split] at finished same
  cases finished
  exact ⟨⟨closed, same⟩, rfl, charged⟩

private theorem appendFields_eq_ok {list result : ArgumentList}
    {package : Package}
    {filter : Filter} {fields : List Field} {before after : Ledger}
    (appended : list.appendFields package filter fields before =
      .ok result after) :
    (∀ field ∈ fields, package.Splits field) ∧
      result = ((fields.flatMap package.words).filter
        filter.accepts).foldl push list ∧
      before.Charged (fields.map package.wordBytes).sum after := by
  induction fields generalizing list before with
  | nil =>
      cases appended
      exact ⟨by simp, rfl, .nothing after⟩
  | cons field rest induction =>
      rcases Run.bind_eq_ok_iff.mp appended with ⟨next, _, first, appended⟩
      rcases appendField_eq_ok first with ⟨split, rfl, earlier⟩
      rcases induction appended with ⟨splits, rfl, later⟩
      refine ⟨List.forall_mem_cons.mpr ⟨split, splits⟩, ?_, ?_⟩
      · rw [List.flatMap_cons, List.filter_append, List.foldl_append]
      · exact earlier.trans later

/-! ## Exclusions -/

theorem placements_exclude (list : ArgumentList) (argument other : String) :
    (list.exclude argument).placements[other]? =
      if argument = other then some .excluded else list.placements[other]? := by
  rw [exclude, Std.HashMap.getElem?_insert]
  simp only [beq_iff_eq]

private theorem placements_foldl_exclude (list : ArgumentList)
    (arguments : List String) (other : String) :
    (arguments.foldl exclude list).placements[other]? =
      if other ∈ arguments then some .excluded
      else list.placements[other]? := by
  induction arguments generalizing list with
  | nil => simp
  | cons argument rest induction =>
      rw [List.foldl_cons, induction, placements_exclude]
      grind

private theorem arguments_foldl_exclude (list : ArgumentList)
    (arguments : List String) :
    (arguments.foldl exclude list).arguments = list.arguments := by
  induction arguments generalizing list with
  | nil => rfl
  | cons argument rest induction => exact induction _

/-! ## Survivors -/

theorem placements_push_of_ne (list : ArgumentList) {argument other : String}
    (different : argument ≠ other) :
    (list.push argument).placements[other]? = list.placements[other]? := by
  have apart := beq_false_of_ne different
  have placed : ∀ place, (list.placements.insert argument place)[other]? =
      list.placements[other]? := by
    intro place
    rw [Std.HashMap.getElem?_insert, apart]
    rfl
  unfold push settle
  dsimp only
  split
  · split
    · exact placed _
    · split
      · exact placed _
      · rfl
  · rfl

/-- A push gives its argument a place, unless it keeps the one that it has. -/
theorem placements_push (list : ArgumentList) (argument : String) :
    (list.push argument).placements[argument]? =
      if Argument.isUnique argument ∧
          (list.placements[argument]? = none ∨ Argument.isLibrary argument) then
        some (.position list.size)
      else list.placements[argument]? := by
  unfold push settle
  by_cases unique : Argument.isUnique argument = true
  · cases placed : list.placements[argument]? with
    | none => simp [unique, placed, size]
    | some place =>
        by_cases library : Argument.isLibrary argument = true
        · simp [unique, placed, library, size]
        · simp [unique, placed, library]
  · simp [unique]

theorem isPrinted_push_of_ne (list : ArgumentList) {argument other : String}
    (different : argument ≠ other) (position : Nat) :
    (list.push argument).isPrinted other position =
      list.isPrinted other position := by
  rw [isPrinted, isPrinted, placements_push_of_ne list different]

private theorem isPrinted_push {list : ArgumentList} {argument : String}
    (unplaced : list.placements[argument]? = none) :
    (list.push argument).isPrinted argument list.size = true := by
  by_cases unique : Argument.isUnique argument = true
  · simp [isPrinted, placements_push, unique, unplaced]
  · simp [isPrinted, placements_push, unique, unplaced]

private theorem survivors_push {list : ArgumentList} {argument : String}
    (unplaced : list.placements[argument]? = none)
    (unpushed : argument ∉ list.arguments) :
    (list.push argument).survivors = list.survivors ++ [argument] := by
  have pushed : (list.push argument).arguments.toList.zipIdx =
      list.arguments.toList.zipIdx ++ [(argument, list.size)] := by
    rw [push, Array.toList_push, List.zipIdx_append]
    simp [size]
  have others : ∀ place ∈ list.arguments.toList.zipIdx,
      (list.push argument).isPrinted place.1 place.2 =
        list.isPrinted place.1 place.2 := by
    rintro ⟨other, position⟩ member
    have present := List.fst_mem_of_mem_zipIdx member
    have different : argument ≠ other := by
      rintro rfl
      exact unpushed (Array.mem_toList_iff.mp present)
    exact isPrinted_push_of_ne list different position
  rw [survivors, pushed, List.filter_append, List.map_append, survivors,
    List.filter_congr others]
  simp [isPrinted_push unplaced]

theorem survivors_foldl_push {list : ArgumentList} {arguments : List String}
    (distinct : arguments.Nodup)
    (unplaced : ∀ argument ∈ arguments, list.placements[argument]? = none)
    (unpushed : ∀ argument ∈ arguments, argument ∉ list.arguments) :
    (arguments.foldl push list).survivors = list.survivors ++ arguments := by
  induction arguments generalizing list with
  | nil => exact (List.append_nil _).symm
  | cons argument rest induction =>
      rcases List.nodup_cons.mp distinct with ⟨absent, distinct⟩
      rcases List.forall_mem_cons.mp unplaced with ⟨first, unplaced⟩
      rcases List.forall_mem_cons.mp unpushed with ⟨new, unpushed⟩
      have different : ∀ other ∈ rest, argument ≠ other := by
        rintro other member rfl
        exact absent member
      rw [List.foldl_cons, induction distinct, survivors_push first new,
        List.append_assoc, List.singleton_append]
      · intro other member
        rw [placements_push_of_ne list (different other member)]
        exact unplaced other member
      · intro other member pushed
        rcases Array.mem_push.mp pushed with pushed | same
        · exact unpushed other member pushed
        · exact different other member same.symm

end ArgumentList

/-! ## Classes -/

namespace FlagClass

def arguments (settings : Settings) (flagClass : FlagClass) (filter : Filter)
    (package : Package) : List String :=
  ((flagClass.fields settings package).flatMap package.words).filter
    filter.accepts

def wordBytes (settings : Settings) (flagClass : FlagClass)
    (package : Package) : Nat :=
  ((flagClass.fields settings package).map package.wordBytes).sum

theorem directoryLetter_eq (flagClass : FlagClass) :
    flagClass.directoryLetter = 'I' ∨ flagClass.directoryLetter = 'L' := by
  cases flagClass
  · exact .inl rfl
  · exact .inr rfl

private theorem appendPackages_eq_ok {settings : Settings}
    {flagClass : FlagClass}
    {filter : Filter} {list result : ArgumentList} {packages : List Package}
    {before after : Ledger}
    (appended : flagClass.appendPackages settings filter list packages before =
      .ok result after) :
    (∀ package ∈ packages, ∀ field ∈ flagClass.fields settings package,
        package.Splits field) ∧
      result = (packages.flatMap
        (flagClass.arguments settings filter)).foldl ArgumentList.push list ∧
      before.Charged (packages.map (flagClass.wordBytes settings)).sum
        after := by
  induction packages generalizing list before with
  | nil =>
      cases appended
      exact ⟨by simp, rfl, .nothing after⟩
  | cons package rest induction =>
      rcases Run.bind_eq_ok_iff.mp appended with ⟨next, _, first, appended⟩
      rcases ArgumentList.appendFields_eq_ok first with ⟨split, rfl, earlier⟩
      rcases induction appended with ⟨splits, rfl, later⟩
      refine ⟨List.forall_mem_cons.mpr ⟨split, splits⟩, ?_, ?_⟩
      · rw [List.flatMap_cons, List.foldl_append]
        rfl
      · exact earlier.trans later

def excludedDirectories (settings : Settings) (flagClass : FlagClass) :
    List String :=
  if settings.isOn flagClass.keepSystem then []
  else
    (Text.segments (· == settings.delimiter)
      (flagClass.systemDirectories settings)).filter (· != "")

def excludedFlags (settings : Settings) (flagClass : FlagClass) :
    List String :=
  (flagClass.excludedDirectories settings).map
    (ArgumentList.systemFlag flagClass.directoryLetter)

def seed (settings : Settings) (flagClass : FlagClass) : ArgumentList :=
  (flagClass.excludedFlags settings).foldl ArgumentList.exclude .empty

structure Collects (settings : Settings) (flagClass : FlagClass)
    (catalogue : Catalogue) (filter : Filter) (before : Ledger)
    (list : ArgumentList) (after : Ledger) : Prop where
  splits : ∀ package ∈ catalogue.packages,
    ∀ field ∈ flagClass.fields settings package, package.Splits field
  list_eq : list = (catalogue.packages.flatMap
    (flagClass.arguments settings filter)).foldl ArgumentList.push
      (flagClass.seed settings)
  used_eq : after.used = before.used +
    ((flagClass.excludedDirectories settings).map
      (ArgumentList.systemFlagBytes flagClass.directoryLetter)).sum +
    (catalogue.packages.map (flagClass.wordBytes settings)).sum

theorem collect_eq_ok {settings : Settings} {flagClass : FlagClass}
    {catalogue : Catalogue} {filter : Filter} {list : ArgumentList}
    {before after : Ledger}
    (collected : flagClass.collect settings catalogue filter before =
      .ok list after) :
    flagClass.Collects settings catalogue filter before list after := by
  unfold collect at collected
  split at collected
  next keeps =>
    rcases appendPackages_eq_ok collected with ⟨splits, rfl, charged⟩
    refine ⟨splits, ?_, ?_⟩
    · simp [seed, excludedFlags, excludedDirectories, keeps]
    · simp [charged.used, excludedDirectories, keeps]
  next leaves =>
    rcases Run.bind_eq_ok_iff.mp collected with
      ⟨exclusion, _, excluded, collected⟩
    rcases Run.bind_eq_ok_iff.mp collected with
      ⟨seeded, between, completed, appended⟩
    have seeding := Run.bind_eq_ok_iff.mpr ⟨exclusion, _, excluded, completed⟩
    rw [ArgumentList.excludeSystem, ArgumentList.excludeDirectories_complete]
      at seeding
    rcases ArgumentList.excludeEach_eq_ok flagClass.directoryLetter_eq seeding
      with ⟨rfl, used⟩
    rcases appendPackages_eq_ok appended with ⟨splits, rfl, charged⟩
    refine ⟨splits, ?_, ?_⟩
    · simp [seed, excludedFlags, excludedDirectories, leaves]
    · simp [charged.used, used, excludedDirectories, leaves]

/-! ## Seeded lists -/

theorem arguments_seed (settings : Settings) (flagClass : FlagClass) :
    (flagClass.seed settings).arguments = #[] :=
  ArgumentList.arguments_foldl_exclude _ _

theorem placements_seed (settings : Settings) (flagClass : FlagClass)
    (argument : String) :
    (flagClass.seed settings).placements[argument]? =
      if argument ∈ flagClass.excludedFlags settings then some .excluded
      else none := by
  rw [seed, ArgumentList.placements_foldl_exclude]
  simp [ArgumentList.empty]

theorem hasFlag_of_mem_excludedFlags {settings : Settings}
    {flagClass : FlagClass} {argument : String}
    (excluded : argument ∈ flagClass.excludedFlags settings) :
    Argument.hasFlag argument flagClass.directoryLetter = true := by
  rcases List.mem_map.mp excluded with ⟨directory, _, rfl⟩
  exact ArgumentList.hasFlag_systemFlag _ _

theorem survivors_foldl_push_seed {settings : Settings}
    {flagClass : FlagClass} {arguments : List String}
    (distinct : arguments.Nodup)
    (plain : ∀ argument ∈ arguments,
      Argument.hasFlag argument flagClass.directoryLetter = false) :
    (arguments.foldl ArgumentList.push
      (flagClass.seed settings)).survivors = arguments := by
  rw [ArgumentList.survivors_foldl_push distinct]
  · simp [ArgumentList.survivors, arguments_seed]
  · intro argument member
    rw [placements_seed, if_neg]
    intro excluded
    have flag := hasFlag_of_mem_excludedFlags excluded
    rw [plain argument member] at flag
    cases flag
  · simp [arguments_seed]

end FlagClass

end PkgConfig
