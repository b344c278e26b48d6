import PkgConfig.Proofs.Repetition

namespace PkgConfig

/-! Filters. Whatever is asked for, the same fields are read and charged, and
what is printed is what would be printed without a filter, as far as the filter
accepts it. -/

/-! ## Reading without a filter -/

def Package.readFields (package : Package) : List Field → Run (List String)
  | [] => return []
  | field :: rest => do
      let words ← fieldWords package.realname [] (package.field field).toList
      let more ← package.readFields rest
      return words ++ more

private theorem ArgumentList.appendFields_eq (list : ArgumentList)
    (package : Package) (filter : Filter) (fields : List Field) :
    list.appendFields package filter fields = do
      let words ← package.readFields fields
      return (words.filter filter.accepts).foldl push list := by
  induction fields generalizing list with
  | nil => rfl
  | cons field rest induction =>
      simp only [appendFields, appendField, Package.readFields, induction,
        bind_assoc, pure_bind, List.filter_append, List.foldl_append]

private theorem Filter.filter_any (arguments : List String) :
    arguments.filter Filter.any.accepts = arguments :=
  List.filter_eq_self.mpr fun _ _ => rfl

namespace FlagClass

def readPackages (settings : Settings) (flagClass : FlagClass) :
    List Package → Run (List String)
  | [] => return []
  | package :: rest => do
      let words ← package.readFields (flagClass.fields settings package)
      let more ← readPackages settings flagClass rest
      return words ++ more

private theorem appendPackages_eq (settings : Settings) (flagClass : FlagClass)
    (filter : Filter) (list : ArgumentList) (packages : List Package) :
    flagClass.appendPackages settings filter list packages = do
      let words ← flagClass.readPackages settings packages
      return (words.filter filter.accepts).foldl ArgumentList.push list := by
  induction packages generalizing list with
  | nil => rfl
  | cons package rest induction =>
      simp only [appendPackages, ArgumentList.appendFields_eq, readPackages,
        induction, bind_assoc, pure_bind, List.filter_append,
        List.foldl_append]

def leaveOut (settings : Settings) (flagClass : FlagClass) :
    Run ArgumentList :=
  if settings.isOn flagClass.keepSystem then
    pure ArgumentList.empty
  else do
    let exclusion ← ArgumentList.empty.excludeSystem
      (flagClass.systemDirectories settings) settings.delimiter
      flagClass.directoryLetter
    exclusion.complete

/-- The filter comes into it only when everything has been read. -/
theorem collect_eq (settings : Settings) (flagClass : FlagClass)
    (catalogue : Catalogue) (filter : Filter) :
    flagClass.collect settings catalogue filter = do
      let list ← flagClass.leaveOut settings
      let words ← flagClass.readPackages settings catalogue.packages
      return (words.filter filter.accepts).foldl ArgumentList.push list := by
  simp only [collect, leaveOut, appendPackages_eq]
  split
  · rfl
  · simp only [bind_assoc]

private theorem collect_cases (settings : Settings) (flagClass : FlagClass)
    (catalogue : Catalogue) (before : Ledger) :
    (∃ error after, ∀ filter,
      flagClass.collect settings catalogue filter before =
        .error error after) ∨
    ∃ output : Filter → ArgumentList, ∃ after, ∀ filter,
      flagClass.collect settings catalogue filter before =
        .ok (output filter) after := by
  simp only [collect_eq, bind, EStateM.bind]
  cases flagClass.leaveOut settings before with
  | error error after => exact .inl ⟨error, after, fun _ => rfl⟩
  | ok list between =>
      cases read : flagClass.readPackages settings catalogue.packages
          between with
      | error error after =>
          exact .inl ⟨error, after, fun _ => by simp only [read]⟩
      | ok words after =>
          refine .inr ⟨fun filter => (words.filter filter.accepts).foldl
            ArgumentList.push list, after, fun _ => ?_⟩
          simp only [read]
          rfl

private theorem survivors_filter {settings : Settings} {flagClass : FlagClass}
    {catalogue : Catalogue} {filter : Filter} {part whole : ArgumentList}
    {before after between finish : Ledger}
    (filtered : flagClass.collect settings catalogue filter before =
      .ok part after)
    (collected : flagClass.collect settings catalogue .any between =
      .ok whole finish) :
    part.survivors = whole.survivors.filter filter.accepts := by
  rw [survivors_of_collect filtered, survivors_of_collect collected,
    Filter.filter_any, ← ArgumentList.counting_filter, List.filter_nil]

end FlagClass

/-! ## Divisions -/

structure Divides (parts : List (List String)) (whole : List String) :
    Prop where
  ordered : ∀ part ∈ parts, part.Sublist whole
  disjoint : parts.Pairwise List.Disjoint
  complete : parts.flatten.Perm whole

namespace Filter

/-- The filters that divide the arguments of each class among themselves. -/
def divisions : List (List Filter) :=
  [[.includeDirs, .otherCflags], [.libDirs, .libNames, .otherLibs]]

private theorem countP_accepts {filters : List Filter}
    (listed : filters ∈ divisions)
    (argument : String) : filters.countP (·.accepts argument) = 1 := by
  have apart : (Argument.hasFlag argument 'L' &&
      Argument.hasFlag argument 'l') = false := by
    unfold Argument.hasFlag
    split
    · by_cases dir : ‹Char› = 'L' <;> simp [dir]
    · rfl
  simp only [divisions, List.mem_cons, List.not_mem_nil, or_false] at listed
  rcases listed with rfl | rfl
  · cases flag : Argument.hasFlag argument 'I' <;> simp [accepts, flag]
  · cases dir : Argument.hasFlag argument 'L' <;>
      cases name : Argument.hasFlag argument 'l' <;>
      simp [accepts, dir, name] at apart ⊢

private theorem pairwise_of_countP {filters : List Filter}
    (once : ∀ argument, filters.countP (·.accepts argument) ≤ 1) :
    filters.Pairwise fun first second => ∀ argument,
      ¬ (first.accepts argument = true ∧ second.accepts argument = true) := by
  induction filters with
  | nil => exact .nil
  | cons filter rest induction =>
      refine .cons ?_ (induction fun argument =>
        Nat.le_trans (List.Sublist.countP_le (List.sublist_cons_self ..))
          (once argument))
      rintro other listed argument ⟨first, second⟩
      have single := once argument
      have again : 0 < rest.countP (·.accepts argument) :=
        List.countP_pos_iff.mpr ⟨other, listed, second⟩
      rw [List.countP_cons, if_pos first] at single
      omega

private theorem count_flatten_filter (filters : List Filter)
    (whole : List String) (argument : String) :
    (filters.map fun filter => whole.filter filter.accepts).flatten.count
        argument =
      filters.countP (·.accepts argument) * whole.count argument := by
  induction filters with
  | nil => simp
  | cons filter rest induction =>
      rw [List.map_cons, List.flatten_cons, List.count_append, induction]
      cases accepted : filter.accepts argument with
      | true =>
          rw [List.count_filter accepted, List.countP_cons, if_pos accepted,
            Nat.succ_mul, Nat.add_comm]
      | false =>
          have absent : argument ∉ whole.filter filter.accepts := by
            simp [accepted]
          rw [List.count_eq_zero.mpr absent, List.countP_cons,
            if_neg (by simp [accepted]), Nat.zero_add, Nat.add_zero]

private theorem divides {filters : List Filter} (listed : filters ∈ divisions)
    (whole : List String) :
    Divides (filters.map fun filter => whole.filter filter.accepts) whole where
  ordered part member := by
    rcases List.mem_map.mp member with ⟨filter, _, rfl⟩
    exact List.filter_sublist
  disjoint := by
    rw [List.pairwise_map]
    apply (pairwise_of_countP fun argument =>
      Nat.le_of_eq (countP_accepts listed argument)).imp
    intro first second apart argument left right
    exact apart argument ⟨(List.mem_filter.mp left).2,
      (List.mem_filter.mp right).2⟩
  complete := by
    rw [List.perm_iff_count]
    intro argument
    rw [count_flatten_filter, countP_accepts listed, Nat.one_mul]

end Filter

/-- Collecting flags fails for all filters alike, or it succeeds for all of them
and leaves the same budget and journal behind. Then a filter prints those of all
the arguments that it accepts; so directories and other flags, or directories,
libraries and other flags, are parts of the whole. -/
theorem collect_divided (settings : Settings) (flagClass : FlagClass)
    (catalogue : Catalogue) (before : Ledger) :
    (∃ error after, ∀ filter,
      flagClass.collect settings catalogue filter before =
        .error error after) ∨
    ∃ output : Filter → ArgumentList, ∃ after,
      (∀ filter, flagClass.collect settings catalogue filter before =
        .ok (output filter) after) ∧
      (∀ filter, (output filter).survivors =
        (output .any).survivors.filter filter.accepts) ∧
      ∀ filters ∈ Filter.divisions,
        Divides (filters.map fun filter => (output filter).survivors)
          (output .any).survivors := by
  rcases flagClass.collect_cases settings catalogue before with
    failed | ⟨output, after, collected⟩
  · exact .inl failed
  · have restricted : ∀ filter, (output filter).survivors =
        (output .any).survivors.filter filter.accepts := fun filter =>
      FlagClass.survivors_filter (collected filter) (collected .any)
    refine .inr ⟨output, after, collected, restricted, ?_⟩
    intro filters listed
    rw [List.map_congr_left fun filter _ => restricted filter]
    exact Filter.divides listed _

end PkgConfig
