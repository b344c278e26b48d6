import PkgConfig.CommandLine.Program
import PkgConfig.Proofs.ArgumentSplitting
import PkgConfig.Proofs.FirstSeen
import PkgConfig.Proofs.NamingOrder

namespace PkgConfig

/-! Resolutions that do not follow requirements. Nothing is read but the files
that the arguments can lead to themselves, and a version in the arguments makes
no difference when versions are ignored. -/

/-! ## Loaders that agree -/

def Settings.withLoader (settings : Settings) (loader : Loader) : Settings :=
  { settings with loader := loader }

@[simp] theorem Settings.searchPath_withLoader (settings : Settings)
    (loader : Loader) :
    (settings.withLoader loader).searchPath = settings.searchPath := rfl

@[simp] theorem Settings.isOn_withLoader (settings : Settings)
    (loader : Loader) (switch : Switch) :
    (settings.withLoader loader).isOn switch = settings.isOn switch := rfl

def Settings.pathsOf (settings : Settings) (token : String) : List String :=
  (if Location.isMetadataFile token then [token] else []) ++
    settings.searchPath.candidates token

def Loader.AgreeOn (paths : List String) (left right : Loader) : Prop :=
  ∀ path ∈ paths, left.load path = right.load path

def Settings.pathsOfAll (settings : Settings) (awaiting : Bool)
    (tokens : List String) : List String :=
  (packageTokens awaiting tokens).flatMap settings.pathsOf

namespace Package

section Loading

variable {settings : Settings} {left right : Loader}

private theorem read?_eq_of_agree {path : String}
    (agree : left.load path = right.load path) (name : String) :
    read? (settings.withLoader left) name path =
      read? (settings.withLoader right) name path := by
  simp only [read?, Settings.withLoader, agree]

private theorem locateAmong?_eq_of_agree (token : String)
    {candidates : List String} (agree : left.AgreeOn candidates right) :
    locateAmong? (settings.withLoader left) token candidates =
      locateAmong? (settings.withLoader right) token candidates := by
  induction candidates with
  | nil => rfl
  | cons candidate rest induction =>
      rcases List.forall_mem_cons.mp agree with ⟨here, agree⟩
      simp only [locateAmong?, read?_eq_of_agree here, induction agree]

private theorem find_eq_of_agree {token : String}
    (agree : left.AgreeOn (settings.pathsOf token) right) :
    find (settings.withLoader left) token =
      find (settings.withLoader right) token := by
  rcases List.forall_mem_append.mp agree with ⟨itself, among⟩
  have byName : locateByName? (settings.withLoader left) token =
      locateByName? (settings.withLoader right) token := by
    simp only [locateByName?, Settings.searchPath_withLoader,
      locateAmong?_eq_of_agree token among]
  have located : locate? (settings.withLoader left) token =
      locate? (settings.withLoader right) token := by
    unfold locate?
    rw [byName]
    split
    next file =>
      rw [if_pos file] at itself
      rw [read?_eq_of_agree (itself token (List.mem_singleton_self token))]
    · rfl
  unfold find
  rw [located]
  rfl

end Loading

end Package

/-! ## Positions -/

/-- Whether a version is awaited behind a token, if one may be awaited in front
of it. -/
def awaitsVersion (awaiting : Bool) (token : String) : Bool :=
  !awaiting && (Comparator.ofToken? token).isSome

private theorem packageTokens_append (awaiting : Bool)
    (front back : List String) : packageTokens awaiting (front ++ back) =
      packageTokens awaiting front ++
        packageTokens (front.foldl awaitsVersion awaiting) back := by
  induction front generalizing awaiting with
  | nil => rfl
  | cons token rest induction =>
      cases awaiting with
      | true => simp [packageTokens, awaitsVersion, induction]
      | false =>
          cases operator : (Comparator.ofToken? token).isSome with
          | true => simp [packageTokens, awaitsVersion, operator, induction]
          | false => simp [packageTokens, awaitsVersion, operator, induction]

private theorem Loader.agreeOn_append_iff {settings : Settings}
    {awaiting : Bool} {front back : List String} {left right : Loader} :
    left.AgreeOn (settings.pathsOfAll awaiting (front ++ back)) right ↔
      left.AgreeOn (settings.pathsOfAll awaiting front) right ∧
        left.AgreeOn (settings.pathsOfAll
          (front.foldl awaitsVersion awaiting) back) right := by
  rw [Settings.pathsOfAll, packageTokens_append, List.flatMap_append]
  exact List.forall_mem_append

namespace Reads

variable {settings : Settings} {opened depth : Nat} {marks : Marks}
  {position final : Position} {tokens : List String} {before after : Catalogue}

theorem pending_eq (reads : Reads settings opened depth marks position tokens
    before final after) :
    final.pending.isSome =
      tokens.foldl awaitsVersion position.pending.isSome := by
  induction reads with
  | done => rfl
  | version pending _ _ rest =>
      rw [rest, List.foldl_cons, awaitsVersion, pending]
      rfl
  | operator settled operator _ _ rest =>
      rw [rest, List.foldl_cons, awaitsVersion, settled, operator]
      rfl
  | known settled names _ _ _ rest =>
      rw [rest, List.foldl_cons, awaitsVersion, settled, names]
      rfl
  | promoted settled names _ _ _ _ _ _ _ _ rest =>
      rw [rest, List.foldl_cons, awaitsVersion, settled, names]
      rfl
  | skipped settled names _ _ _ _ rest =>
      rw [rest, List.foldl_cons, awaitsVersion, settled, names]
      rfl
  | loaded settled names _ _ _ _ _ _ _ _ _ _ _ rest =>
      rw [rest, List.foldl_cons, awaitsVersion, settled, names]
      rfl

/-- Without following requirements, a list adds the names in it that are new,
and nothing else. -/
theorem realnames_eq_of_skips (reads : Reads settings opened depth marks
    position tokens before final after)
    (skips : settings.isOn .skipRequires = true)
    (distinct : before.realnames.Nodup) :
    after.realnames = (before.realnames ++
      (packageTokens position.pending.isSome tokens).map
        Location.realname).eraseDups := by
  have closed : ∀ depth, Walk.readsRequirements settings depth = false := by
    simp [Walk.readsRequirements, skips]
  induction reads with
  | done => simp [packageTokens, eraseDups_of_nodup distinct]
  | version pending _ _ rest =>
      rw [packageTokens_version pending]
      exact rest distinct
  | operator settled operator _ _ rest =>
      rw [packageTokens_operator settled operator]
      exact rest distinct
  | known settled names found _ _ rest =>
      have listed := Catalogue.mem_realnames_of_find? found
      rw [packageTokens_name settled names, List.map_cons,
        ← eraseDups_appendNew, appendNew, if_pos listed]
      rw [Catalogue.realnames_mergeMarks] at rest
      exact rest distinct
  | skipped settled names absent loads _ _ rest =>
      have unlisted := Catalogue.find?_eq_none_iff.mp absent
      rcases loads.realname_eq with ⟨named, _⟩
      rw [← named] at absent
      rw [packageTokens_name settled names, List.map_cons,
        ← eraseDups_appendNew, appendNew, if_neg unlisted, ← named,
        ← Catalogue.realnames_enrol]
      exact rest (Catalogue.nodup_enrol distinct absent _)
  | promoted _ _ _ _ reads => simp [closed] at reads
  | loaded _ _ _ _ reads => simp [closed] at reads

end Reads

/-! ## Files -/

section Files

variable {settings : Settings} (skips : settings.isOn .skipRequires = true)
  {left right : Loader}

include skips

namespace RecursiveWalk

private theorem readToken_eq_of_agree {opened depth : Nat} {marks : Marks}
    {position : Position} {token : String}
    (agree : left.AgreeOn
      (settings.pathsOfAll position.pending.isSome [token]) right) :
    readToken (settings.withLoader left) opened depth marks position token =
      readToken (settings.withLoader right) opened depth marks position
        token := by
  have closed : ∀ loader depth,
      Walk.readsRequirements (settings.withLoader loader) depth = false := by
    simp [Walk.readsRequirements, skips]
  rw [readToken, readToken]
  cases pending : position.pending with
  | some comparator => rfl
  | none =>
      cases operator : Comparator.ofToken? token with
      | some comparator => rfl
      | none =>
          have find : Package.find (settings.withLoader left) token =
              Package.find (settings.withLoader right) token := by
            apply Package.find_eq_of_agree
            simpa [Settings.pathsOfAll, packageTokens, pending, operator]
              using agree
          simp only [revisit, discover, closed, find, Bool.and_false,
            Bool.false_eq_true, if_false]

private theorem readTokens_eq_of_agree {opened depth : Nat} {marks : Marks}
    {tokens : List String} {position : Position}
    (agree : left.AgreeOn
      (settings.pathsOfAll position.pending.isSome tokens) right)
    (session : Session) :
    tokens.foldlM (readToken (settings.withLoader left) opened depth marks)
        position session =
      tokens.foldlM (readToken (settings.withLoader right) opened depth marks)
        position session := by
  induction tokens generalizing position session with
  | nil => rfl
  | cons token rest induction =>
      rcases Loader.agreeOn_append_iff.mp
        (List.singleton_append ▸ agree) with ⟨here, agree⟩
      rw [List.foldlM_cons, List.foldlM_cons,
        readToken_eq_of_agree skips here]
      apply Resolve.bind_congr_of_ok
      intro next after read
      have alone : [token].foldlM (readToken (settings.withLoader right) opened
          depth marks) position session = .ok next after := by
        rw [List.foldlM_cons]
        exact Resolve.bind_eq_ok_iff.mpr ⟨next, after, read, rfl⟩
      have reads := reads_of_foldlM alone
      rw [← reads.pending_eq] at agree
      exact induction agree after

end RecursiveWalk

namespace Resolve

private theorem push_eq_of_agree {argument : String} {session : Session}
    (agree : left.AgreeOn (settings.pathsOfAll
      session.resolution.position.pending.isSome (Text.tokens argument)) right) :
    push (settings.withLoader left) argument session =
      push (settings.withLoader right) argument session := by
  simp only [push_eq_pushTokens, pushTokens,
    RecursiveWalk.readTokens_eq_of_agree skips agree]

private theorem pushAll_eq_of_agree {arguments : List String}
    {session : Session} (agree : left.AgreeOn (settings.pathsOfAll
      session.resolution.position.pending.isSome
      (arguments.flatMap Text.tokens)) right) :
    pushAll (settings.withLoader left) arguments session =
      pushAll (settings.withLoader right) arguments session := by
  induction arguments generalizing session with
  | nil => rfl
  | cons argument rest induction =>
      rcases Loader.agreeOn_append_iff.mp agree with ⟨here, agree⟩
      have first := push_eq_of_agree skips here
      have rest : ∀ value after,
          push (settings.withLoader right) argument session = .ok value after →
          pushAll (settings.withLoader left) rest after =
            pushAll (settings.withLoader right) rest after := by
        intro _ after pushed
        rw [← (reads_of_push pushed).pending_eq] at agree
        exact induction agree
      simp only [pushAll, bind, EStateM.bind, first]
      split
      next value after pushed => exact rest value after pushed
      · rfl

end Resolve

end Files

/-! ## Versions in the arguments -/

/-- The other arguments have another version in one place behind an operator.
Such an operator may stand in front of the arguments already. -/
inductive OtherVersion (awaiting : Bool) : List String → List String → Prop
  | intro {front version other back : String} {earlier later : List String}
      (opens : Text.EndsApart front)
      (closes : Text.StartsApart back)
      (awaits : (earlier.flatMap Text.tokens ++ Text.tokens front).foldl
        awaitsVersion awaiting = true)
      (single : Text.IsToken version)
      (single' : Text.IsToken other) :
      OtherVersion awaiting (earlier ++ (front ++ version ++ back) :: later)
        (earlier ++ (front ++ other ++ back) :: later)

section Versions

variable {settings : Settings} (ignores : settings.isOn .ignoreVersions = true)

include ignores

private theorem RecursiveWalk.readToken_version {opened depth : Nat}
    {marks : Marks}
    {position : Position} (awaits : position.pending.isSome = true)
    (version other : String) :
    readToken settings opened depth marks position version =
      readToken settings opened depth marks position other := by
  rcases Option.isSome_iff_exists.mp awaits with ⟨comparator, pending⟩
  rw [readToken, readToken]
  simp only [pending, Walk.checkVersion, ignores, if_true]

private theorem RecursiveWalk.readTokens_version {opened depth : Nat}
    {marks : Marks} {position : Position} {front : List String}
    (awaits : front.foldl awaitsVersion position.pending.isSome = true)
    (version other : String) (back : List String) (session : Session) :
    (front ++ version :: back).foldlM (readToken settings opened depth marks)
        position session =
      (front ++ other :: back).foldlM (readToken settings opened depth marks)
        position session := by
  rw [List.foldlM_append, List.foldlM_append]
  apply Resolve.bind_congr_of_ok
  intro next after read
  rw [← (reads_of_foldlM read).pending_eq] at awaits
  rw [List.foldlM_cons, List.foldlM_cons,
    readToken_version ignores awaits version other]

private theorem Resolve.push_version {front version other back : String}
    (opens : Text.EndsApart front) (closes : Text.StartsApart back)
    (single : Text.IsToken version) (single' : Text.IsToken other)
    {session : Session}
    (awaits : (Text.tokens front).foldl awaitsVersion
      session.resolution.position.pending.isSome = true) :
    push settings (front ++ version ++ back) session =
      push settings (front ++ other ++ back) session := by
  simp only [push_eq_pushTokens, pushTokens,
    single.tokens_between opens closes, single'.tokens_between opens closes,
    RecursiveWalk.readTokens_version ignores awaits version other]

theorem OtherVersion.pushAll_eq {arguments others : List String}
    {session : Session}
    (replaced : OtherVersion session.resolution.position.pending.isSome
      arguments others) :
    Resolve.pushAll settings arguments session =
      Resolve.pushAll settings others session := by
  cases replaced with
  | @intro front version other back earlier later opens closes awaits single
      single' =>
  induction earlier generalizing session with
  | nil =>
      have pushed := Resolve.push_version ignores opens closes single single'
        awaits
      simp only [List.nil_append, Resolve.pushAll, bind, EStateM.bind, pushed]
  | cons argument rest induction =>
      apply Resolve.bind_congr_of_ok
      intro _ after pushed
      rw [List.flatMap_cons, List.append_assoc, List.foldl_append,
        ← (reads_of_push pushed).pending_eq] at awaits
      exact induction awaits

end Versions

/-! ## Command lines -/

private theorem Catalogue.resolve_congr {left right : Settings}
    {arguments others : List String}
    (same : ∀ ledger, Resolve.pushAll left arguments ⟨.empty, ledger⟩ =
      Resolve.pushAll right others ⟨.empty, ledger⟩) :
    resolve left arguments = resolve right others := by
  funext ledger
  unfold resolve
  rw [same]

def Catalogue.AllSatisfy (catalogue : Catalogue) (names : List String)
    (comparator : Comparator) (wanted : String) : Prop :=
  ∀ name ∈ names, ∃ package, catalogue.lookup? name = some package ∧
    comparator.holds package.version wanted = true

private theorem forM_checkVersion_eq_ok_iff {comparator : Comparator}
    {wanted : String} {packages : List Package} :
    packages.forM (·.checkVersion comparator wanted) = .ok () ↔
      ∀ package ∈ packages, comparator.holds package.version wanted = true := by
  induction packages with
  | nil => simp [pure, Except.pure]
  | cons package rest induction =>
      have cons : (package :: rest).forM (·.checkVersion comparator wanted) =
          package.checkVersion comparator wanted >>= fun _ =>
            rest.forM (·.checkVersion comparator wanted) := rfl
      rw [cons, List.forall_mem_cons, ← induction, Package.checkVersion]
      cases comparator.holds package.version wanted with
      | true => simp [bind, Except.bind]
      | false => simp [bind, Except.bind]

section Direct

variable {settings : Settings} {arguments : List String}
  {ledger after : Ledger} {catalogue : Catalogue}
  (resolved : Catalogue.resolve settings arguments ledger =
    .ok catalogue after)

include resolved

private theorem mem_directNames_of_resolve {name : String} :
    name ∈ catalogue.directNames ↔ name ∈ namesInArguments arguments := by
  rcases reads_of_resolve resolved with ⟨final, reads⟩
  rw [reads.directNames_eq rfl .empty, List.mem_eraseDups]
  rfl

private theorem lookup?_of_mem_directPackages {package : Package}
    (direct : package ∈ catalogue.directPackages) :
    catalogue.lookup? package.realname = some package := by
  rcases reads_of_resolve resolved with ⟨final, reads⟩
  rcases List.mem_filterMap.mp direct with ⟨id, _, held⟩
  exact Catalogue.lookup?_of_package? (reads.nodup List.nodup_nil) held

private theorem checkOverride_iff {selection : CommandLine.Selection}
    {comparator : Comparator} {wanted : String}
    (override : selection.versionOverride? = some (comparator, wanted)) :
    CommandLine.checkOverride selection catalogue = .ok () ↔
      catalogue.AllSatisfy (namesInArguments arguments) comparator wanted := by
  have checks : CommandLine.checkOverride selection catalogue =
      catalogue.directPackages.forM (·.checkVersion comparator wanted) := by
    simp only [CommandLine.checkOverride, override]
  rw [checks, forM_checkVersion_eq_ok_iff]
  constructor
  · intro passed name asked
    rcases List.mem_map.mp ((mem_directNames_of_resolve resolved).mpr asked)
      with ⟨package, direct, rfl⟩
    exact ⟨package, lookup?_of_mem_directPackages resolved direct,
      passed package direct⟩
  · intro satisfied package direct
    have asked := (mem_directNames_of_resolve resolved).mp
      (List.mem_map_of_mem direct)
    rcases satisfied _ asked with ⟨other, found, holds⟩
    have held := lookup?_of_mem_directPackages resolved direct
    cases held.symm.trans found
    exact holds

end Direct

/-- When requirements are not followed, nothing but the files of the named
packages counts and nothing but the named packages is resolved. When versions
are ignored too, those in the arguments do not count, and an override is met
exactly if the named packages meet it. -/
theorem named_packages_alone {settings : Settings}
    (skips : settings.isOn .skipRequires = true) (arguments : List String) :
    (∀ left right session, left.AgreeOn (settings.pathsOfAll
          session.resolution.position.pending.isSome
          (arguments.flatMap Text.tokens)) right →
        Resolve.pushAll (settings.withLoader left) arguments session =
          Resolve.pushAll (settings.withLoader right) arguments session) ∧
      (∀ left right, left.AgreeOn
          (settings.pathsOfAll false (arguments.flatMap Text.tokens)) right →
        Catalogue.resolve (settings.withLoader left) arguments =
          Catalogue.resolve (settings.withLoader right) arguments) ∧
      (∀ ledger catalogue after,
        Catalogue.resolve settings arguments ledger = .ok catalogue after →
          catalogue.realnames = (namesInArguments arguments).eraseDups) ∧
      (settings.isOn .ignoreVersions = true →
        (∀ others session, OtherVersion
            session.resolution.position.pending.isSome arguments others →
          Resolve.pushAll settings arguments session =
            Resolve.pushAll settings others session) ∧
        (∀ others, OtherVersion false arguments others →
          Catalogue.resolve settings arguments =
            Catalogue.resolve settings others) ∧
        ∀ (selection : CommandLine.Selection) comparator wanted ledger,
          selection.versionOverride? = some (comparator, wanted) →
          ((∃ catalogue after,
              Catalogue.resolve settings arguments ledger =
                .ok catalogue after ∧
              CommandLine.checkOverride selection catalogue = .ok ()) ↔
            ∃ catalogue after,
              Catalogue.resolve settings arguments ledger =
                .ok catalogue after ∧
              catalogue.AllSatisfy (namesInArguments arguments) comparator
                wanted)) := by
  have alike : ∀ left right, left.AgreeOn
      (settings.pathsOfAll false (arguments.flatMap Text.tokens)) right →
      Catalogue.resolve (settings.withLoader left) arguments =
        Catalogue.resolve (settings.withLoader right) arguments := by
    intro left right agree
    apply Catalogue.resolve_congr
    intro ledger
    exact Resolve.pushAll_eq_of_agree skips agree
  have exact : ∀ ledger catalogue after,
      Catalogue.resolve settings arguments ledger = .ok catalogue after →
        catalogue.realnames = (namesInArguments arguments).eraseDups := by
    intro ledger catalogue after resolved
    rcases reads_of_resolve resolved with ⟨final, reads⟩
    have added := reads.realnames_eq_of_skips skips List.nodup_nil
    exact added
  refine ⟨fun left right session agree =>
    Resolve.pushAll_eq_of_agree skips agree, alike, exact, ?_⟩
  intro ignores
  refine ⟨fun others session replaced => replaced.pushAll_eq ignores, ?_, ?_⟩
  · intro others replaced
    apply Catalogue.resolve_congr
    intro ledger
    exact OtherVersion.pushAll_eq ignores replaced
  · intro selection comparator wanted ledger override
    constructor
    · intro ⟨catalogue, after, resolved, checked⟩
      exact ⟨catalogue, after, resolved,
        (checkOverride_iff resolved override).mp checked⟩
    · intro ⟨catalogue, after, resolved, satisfied⟩
      exact ⟨catalogue, after, resolved,
        (checkOverride_iff resolved override).mpr satisfied⟩

/-! A package that requires one that may be missing, with a constraint that it does
not meet. -/

namespace OverriddenVersion

def choices : Choices :=
  { Choices.none with
    switches := .ofList [.skipRequires, .ignoreVersions] }

def files : List (String × String) :=
  [("/p/t.pc", "Name:\nVersion: 2\nDescription:\nRequires: missing\n")]

def settings : Settings := FileTable.settings choices files

def completed : Loader :=
  FileTable.loader
    (Table.ofList (files ++ [FileTable.metadataFile "missing" ""]))

def selection : CommandLine.Selection :=
  ⟨[⟨.atleastVersion, "1"⟩], ["t > 9"]⟩

theorem agreeOn_completed : settings.loader.AgreeOn
    (settings.pathsOfAll false (["t > 9"].flatMap Text.tokens)) completed := by
  have paths : settings.pathsOfAll false (["t > 9"].flatMap Text.tokens) =
      ["/p/t.pc"] := by
    cbv
  rw [paths]
  intro path listed
  cases List.mem_singleton.mp listed
  cbv

private theorem isToken_nine : Text.IsToken "9" where
  nonempty := by decide
  unbroken := by simp; decide

private theorem isToken_one : Text.IsToken "1" where
  nonempty := by decide
  unbroken := by simp; decide

private theorem otherVersion : OtherVersion false ["t > 9"] ["t > 1"] := by
  have opens : Text.EndsApart "t > " := by
    intro character last
    cases last
    decide
  have closes : Text.StartsApart "" := by
    intro character first
    cases first
  have awaits : ([].flatMap Text.tokens ++ Text.tokens "t > ").foldl
      awaitsVersion false = true := by
    cbv
  exact .intro opens closes awaits isToken_nine isToken_one

theorem named_package_alone :
    settings.isOn .skipRequires = true ∧
      settings.isOn .ignoreVersions = true ∧
      Catalogue.resolve settings ["t > 9"] =
        Catalogue.resolve (settings.withLoader completed) ["t > 9"] ∧
      Catalogue.resolve settings ["t > 9"] =
        Catalogue.resolve settings ["t > 1"] ∧
      ∃ catalogue after,
        Catalogue.resolve settings ["t > 9"] settings.freshLedger =
          .ok catalogue after ∧
        catalogue.realnames = ["t"] ∧
        CommandLine.checkOverride selection catalogue = .ok () := by
  have skips : settings.isOn .skipRequires = true := by cbv
  have ignores : settings.isOn .ignoreVersions = true := by cbv
  rcases named_packages_alone skips ["t > 9"] with
    ⟨_, alike, exact, overriding⟩
  rcases overriding ignores with ⟨_, reworded, overridden⟩
  have computed : (RecursiveWalk.resolve? settings "t > 9").map
      (fun catalogue => (catalogue.lookup? "t").map Package.version) =
        some (some "2") := by
    cbv
  rcases Catalogue.resolve_of_resolve? computed with
    ⟨catalogue, after, resolved, version⟩
  have names : namesInArguments ["t > 9"] = ["t"] := by cbv
  rcases Option.map_eq_some_iff.mp version with ⟨package, held, version⟩
  have holds : Comparator.greaterOrEqual.holds package.version "1" = true := by
    rw [version]
    decide
  have satisfied : catalogue.AllSatisfy (namesInArguments ["t > 9"])
      .greaterOrEqual "1" := by
    rw [names]
    intro name listed
    cases List.mem_singleton.mp listed
    exact ⟨package, held, holds⟩
  have override : selection.versionOverride? = some (.greaterOrEqual, "1") := by
    decide
  rcases (overridden selection _ _ _ override).mpr
    ⟨catalogue, after, resolved, satisfied⟩ with
    ⟨catalogue, after, resolved, passed⟩
  refine ⟨skips, ignores, alike settings.loader completed agreeOn_completed,
    reworded _ otherVersion, catalogue, after, resolved, ?_, passed⟩
  rw [exact _ _ _ resolved, names]
  rfl

end OverriddenVersion

end PkgConfig
