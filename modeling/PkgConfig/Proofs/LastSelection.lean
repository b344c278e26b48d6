import Mathlib.Data.List.Induction
import PkgConfig.CommandLine.Reader

namespace PkgConfig.CommandLine

/-! Of options that exclude each other, the one that is given last counts. What
is given is described by a grammar of the arguments, and what counts in the end
by the last of the given options that has a say. -/

/-! ## Grammar -/

def IsPlain (argument : String) : Prop :=
  argument = "-" ∨ argument.toList.head? ≠ some '-'

/-- The arguments give these options and name these packages, both in this
order. -/
inductive Given : List String → List GivenOption → List String → Prop
  | nil : Given [] [] []
  | terminator : Given ("--" :: packages) [] packages
  | package (plain : IsPlain argument)
      (rest : Given arguments options packages) :
      Given (argument :: arguments) options (argument :: packages)
  | flag {name : OptionName} (alone : name.takesValue = false)
      (rest : Given arguments options packages) :
      Given (name.display :: arguments) (⟨name, ""⟩ :: options) packages
  | attached {name : OptionName} (valued : name.takesValue = true)
      (rest : Given arguments options packages) :
      Given ((name.display ++ "=" ++ value) :: arguments)
        (⟨name, value⟩ :: options) packages
  | separate {name : OptionName} (valued : name.takesValue = true)
      (plain : IsPlain value) (rest : Given arguments options packages) :
      Given (name.display :: value :: arguments) (⟨name, value⟩ :: options)
        packages
  | short (count : Nat) (rest : Given arguments options packages) :
      Given (String.ofList ('-' :: List.replicate (count + 1) 'h') :: arguments)
        (List.replicate (count + 1) ⟨.help, ""⟩ ++ options) packages

/-! ## Shapes -/

namespace OptionName

private theorem ofLong?_long (name : OptionName) :
    ofLong? name.long = some name := by
  cases name <;> cbv

private theorem long_of_ofLong? {text : String} {name : OptionName}
    (found : ofLong? text = some name) : name.long = text := by
  simpa using List.find?_some found

private theorem long_unassigned (name : OptionName) :
    ∀ character ∈ name.long.toList, (character != '=') = true := by
  apply List.all_eq_true.mp
  cases name <;> cbv

private theorem ofShort?_eq_some_iff {letter : Char} {name : OptionName} :
    ofShort? letter = some name ↔ letter = 'h' ∧ name = .help := by
  unfold ofShort?
  by_cases same : letter = 'h'
  · simp [same, eq_comm]
  · simp [same]

end OptionName

namespace Shape

private def Spells (argument : String) : Shape → Prop
  | .terminator => argument = "--"
  | .long text none => argument = "--" ++ text
  | .long text (some value) => argument = "--" ++ text ++ "=" ++ value
  | .short letters => argument = String.ofList ('-' :: letters) ∧ letters ≠ []
  | .plain => IsPlain argument

private theorem spells_ofArgument (argument : String) :
    Spells argument (ofArgument argument) := by
  unfold ofArgument
  split
  next whole => exact String.toList_inj.mp whole
  next text _ whole =>
    have parts : text.takeWhile (· != '=') ++ text.dropWhile (· != '=') =
        text := List.takeWhile_append_dropWhile
    dsimp only
    split
    next separator value remains =>
      have assigns := List.head?_dropWhile_not (· != '=') text
      rw [remains, List.head?_cons] at assigns
      have assigns : separator = '=' := by simpa using assigns
      rw [remains, assigns] at parts
      apply String.toList_inj.mp
      simp [whole, parts]
    next remains =>
      rw [remains, List.append_nil] at parts
      apply String.toList_inj.mp
      simp [whole, parts]
  next letter letters _ whole =>
    refine ⟨String.toList_inj.mp ?_, by simp⟩
    simp [whole]
  next other =>
    cases text : argument.toList with
    | nil => exact .inr (by simp [text])
    | cons first rest =>
        by_cases dash : first = '-'
        · subst dash
          cases rest with
          | nil => exact .inl (String.toList_inj.mp text)
          | cons letter letters => exact absurd text (other letter letters)
        · exact .inr (by simpa [text] using dash)

private theorem ofArgument_plain {argument : String}
    (plain : IsPlain argument) : ofArgument argument = .plain := by
  rcases plain with rfl | plain
  · rfl
  · unfold ofArgument
    split
    next whole => simp [whole] at plain
    next whole => simp [whole] at plain
    next whole => simp [whole] at plain
    · rfl

private theorem ofArgument_display (name : OptionName) :
    ofArgument name.display = .long name.long none := by
  cases name <;> rfl

private theorem ofArgument_attached (name : OptionName) (value : String) :
    ofArgument (name.display ++ "=" ++ value) =
      .long name.long (some value) := by
  have written : (name.display ++ "=" ++ value).toList =
      '-' :: '-' :: (name.long.toList ++ '=' :: value.toList) := by
    simp [OptionName.display]
  have taken : (name.long.toList ++ '=' :: value.toList).takeWhile (· != '=') =
      name.long.toList := by
    rw [List.takeWhile_append_of_pos name.long_unassigned]
    simp
  have remains : (name.long.toList ++ '=' :: value.toList).dropWhile
      (· != '=') = '=' :: value.toList := by
    rw [List.dropWhile_append_of_pos name.long_unassigned]
    simp
  unfold ofArgument
  rw [written]
  cases text : name.long.toList ++ '=' :: value.toList with
  | nil => simp at text
  | cons first rest =>
      rw [text] at taken remains
      simp [taken, remains]

private theorem ofArgument_short (count : Nat) :
    ofArgument (String.ofList ('-' :: List.replicate (count + 1) 'h')) =
      .short (List.replicate (count + 1) 'h') := by
  unfold ofArgument
  rw [String.toList_ofList, List.replicate_succ]
  rfl

end Shape

/-! ## Reading -/

namespace Reader

/-- How a single argument is read where no value is awaited. -/
inductive Step (selection : Selection) : String → Reader → Prop
  | terminator : Step selection "--" ⟨selection, none, true⟩
  | package (plain : IsPlain argument) :
      Step selection argument ⟨selection.addPackage argument, none, false⟩
  | flag {name : OptionName} (alone : name.takesValue = false) :
      Step selection name.display
        ⟨selection.addOption ⟨name, ""⟩, none, false⟩
  | attached {name : OptionName} (valued : name.takesValue = true) :
      Step selection (name.display ++ "=" ++ value)
        ⟨selection.addOption ⟨name, value⟩, none, false⟩
  | awaiting {name : OptionName} (valued : name.takesValue = true) :
      Step selection name.display ⟨selection, some name, false⟩
  | short (count : Nat) :
      Step selection
        (String.ofList ('-' :: List.replicate (count + 1) 'h'))
        ⟨(List.replicate (count + 1) ⟨.help, ""⟩).foldl Selection.addOption
          selection, none, false⟩

private theorem readShort_replicate (selection : Selection) (count : Nat) :
    readShort ⟨selection, none, false⟩ (List.replicate count 'h') =
      .ok ⟨(List.replicate count ⟨.help, ""⟩).foldl Selection.addOption
        selection, none, false⟩ := by
  induction count generalizing selection with
  | zero => rfl
  | succ count induction =>
      rw [List.replicate_succ, List.replicate_succ, List.foldl_cons,
        ← induction]
      rfl

private theorem replicate_of_readShort {reader next : Reader}
    {letters : List Char} (read : reader.readShort letters = .ok next) :
    letters = List.replicate letters.length 'h' := by
  induction letters generalizing reader with
  | nil => rfl
  | cons letter rest induction =>
      unfold readShort at read
      cases spelled : OptionName.ofShort? letter with
      | none =>
          simp only [spelled] at read
          cases read
      | some name =>
          simp only [spelled] at read
          rcases OptionName.ofShort?_eq_some_iff.mp spelled with ⟨rfl, rfl⟩
          cases given : reader.give .help "" with
          | error error =>
              rw [given] at read
              cases read
          | ok between =>
              rw [given] at read
              rw [List.length_cons, List.replicate_succ, ← induction read]

private theorem read_of_step {selection : Selection} {argument : String}
    {next : Reader} (step : Step selection argument next) :
    read ⟨selection, none, false⟩ argument = .ok next := by
  unfold read
  cases step with
  | terminator => rfl
  | package plain =>
      simp only [Shape.ofArgument_plain plain]
      rfl
  | flag alone =>
      simp only [Shape.ofArgument_display, readLong, OptionName.ofLong?_long,
        alone]
      rfl
  | attached valued =>
      simp only [Shape.ofArgument_attached, readLong, OptionName.ofLong?_long,
        valued]
      rfl
  | awaiting valued =>
      simp only [Shape.ofArgument_display, readLong, OptionName.ofLong?_long,
        valued]
      rfl
  | short count =>
      simp only [Shape.ofArgument_short]
      exact readShort_replicate selection (count + 1)

private theorem step_of_read {selection : Selection} {argument : String}
    {next : Reader} (read : read ⟨selection, none, false⟩ argument = .ok next) :
    Step selection argument next := by
  have spelled := Shape.spells_ofArgument argument
  unfold Reader.read at read
  cases shape : Shape.ofArgument argument with
  | terminator =>
      simp only [shape] at read spelled
      cases read
      cases spelled
      exact .terminator
  | plain =>
      simp only [shape] at read spelled
      cases read
      exact .package spelled
  | short letters =>
      simp only [shape] at read spelled
      rcases spelled with ⟨rfl, nonempty⟩
      have each : ∃ count, letters = List.replicate (count + 1) 'h' := by
        cases letters with
        | nil => exact absurd rfl nonempty
        | cons letter rest => exact ⟨_, replicate_of_readShort read⟩
      rcases each with ⟨count, rfl⟩
      rw [readShort_replicate] at read
      cases read
      exact .short count
  | long text value =>
      simp only [shape, readLong] at read spelled
      cases found : OptionName.ofLong? text with
      | none =>
          simp only [found] at read
          cases read
      | some name =>
          cases OptionName.long_of_ofLong? found
          cases value with
          | none =>
              cases spelled
              cases valued : name.takesValue with
              | true =>
                  simp only [found, valued] at read
                  cases read
                  exact .awaiting valued
              | false =>
                  simp only [found, valued] at read
                  cases read
                  exact .flag valued
          | some value =>
              cases spelled
              cases valued : name.takesValue with
              | true =>
                  simp only [found, valued] at read
                  cases read
                  exact .attached valued
              | false =>
                  simp only [found, valued] at read
                  cases read

private theorem read_value {value : String} (plain : IsPlain value)
    (selection : Selection) (name : OptionName) :
    read ⟨selection, some name, false⟩ value =
      .ok ⟨selection.addOption ⟨name, value⟩, none, false⟩ := by
  unfold read
  simp only [Shape.ofArgument_plain plain]
  rfl

/-- Where a value is awaited, only a value is read, or two dashes that take it
away. -/
theorem read_awaiting {selection : Selection} {name : OptionName}
    {argument : String} {next : Reader}
    (read : read ⟨selection, some name, false⟩ argument = .ok next) :
    next = ⟨selection, some name, true⟩ ∨
      IsPlain argument ∧
        next = ⟨selection.addOption ⟨name, argument⟩, none, false⟩ := by
  have spelled := Shape.spells_ofArgument argument
  unfold Reader.read at read
  cases shape : Shape.ofArgument argument with
  | terminator =>
      simp only [shape] at read
      cases read
      exact .inl rfl
  | plain =>
      simp only [shape] at read spelled
      cases read
      exact .inr ⟨spelled, rfl⟩
  | short letters =>
      simp only [shape] at read spelled
      cases letters with
      | nil => exact absurd rfl spelled.2
      | cons letter rest =>
          unfold readShort at read
          cases spelling : OptionName.ofShort? letter with
          | none =>
              simp only [spelling] at read
              cases read
          | some other =>
              simp only [spelling] at read
              cases read
  | long text value =>
      simp only [shape, readLong] at read
      cases found : OptionName.ofLong? text with
      | none =>
          simp only [found] at read
          cases read
      | some other =>
          cases value <;> cases valued : other.takesValue <;>
          · simp only [found, valued] at read
            cases read

/-! ## Command lines -/

private def readAll (reader : Reader) (arguments : List String) :
    Except Error Selection := do
  let reader ← arguments.foldlM read reader
  reader.finish

private theorem readAll_cons_eq_ok_iff {reader : Reader} {argument : String}
    {rest : List String} {selection : Selection} :
    readAll reader (argument :: rest) = .ok selection ↔
      ∃ next, reader.read argument = .ok next ∧
        readAll next rest = .ok selection := by
  simp only [readAll, List.foldlM_cons, bind, Except.bind]
  cases reader.read argument with
  | ok next => simp
  | error error => simp

private theorem readAll_ended (selection : Selection)
    (arguments : List String) : readAll ⟨selection, none, true⟩ arguments =
      .ok { selection with packages := selection.packages ++ arguments } := by
  induction arguments generalizing selection with
  | nil =>
      rw [List.append_nil]
      rfl
  | cons argument rest induction =>
      refine readAll_cons_eq_ok_iff.mpr ⟨_, rfl, ?_⟩
      rw [induction]
      simp [Selection.addPackage]

private theorem readAll_awaiting_ended {selection result : Selection}
    {name : OptionName} {arguments : List String} :
    readAll ⟨selection, some name, true⟩ arguments ≠ .ok result := by
  intro read
  cases arguments with
  | nil => cases read
  | cons argument rest =>
      rcases readAll_cons_eq_ok_iff.mp read with ⟨next, first, _⟩
      cases first

end Reader

namespace Selection

def inForce (kept given : List GivenOption) : List GivenOption :=
  given.foldl (fun kept option =>
    kept.filter (fun earlier => !yields earlier.name option.name) ++ [option])
    kept

private def adding (selection : Selection) (given : List GivenOption)
    (packages : List String) : Selection :=
  ⟨inForce selection.options given, selection.packages ++ packages⟩

private theorem options_foldl_addOption (selection : Selection)
    (given : List GivenOption) :
    given.foldl addOption selection =
      { selection with options := inForce selection.options given } := by
  induction given generalizing selection with
  | nil => rfl
  | cons option rest induction =>
      rw [List.foldl_cons, induction]
      rfl

private theorem addPackage_adding (selection : Selection) (argument : String)
    (given : List GivenOption) (packages : List String) :
    (selection.addPackage argument).adding given packages =
      selection.adding given (argument :: packages) := by
  simp [adding, addPackage]

private theorem foldl_adding (selection : Selection)
    (first given : List GivenOption) (packages : List String) :
    (first.foldl addOption selection).adding given packages =
      selection.adding (first ++ given) packages := by
  simp [options_foldl_addOption, adding, inForce]

end Selection

private theorem Given.readAll {arguments : List String}
    {options : List GivenOption}
    {packages : List String} (given : Given arguments options packages)
    (selection : Selection) :
    Reader.readAll ⟨selection, none, false⟩ arguments =
      .ok (selection.adding options packages) := by
  induction given generalizing selection with
  | nil =>
      rw [Selection.adding, List.append_nil]
      rfl
  | terminator =>
      exact Reader.readAll_cons_eq_ok_iff.mpr
        ⟨_, rfl, Reader.readAll_ended selection _⟩
  | package plain _ induction =>
      rw [← Selection.addPackage_adding]
      exact Reader.readAll_cons_eq_ok_iff.mpr
        ⟨_, Reader.read_of_step (.package plain), induction _⟩
  | flag alone _ induction =>
      exact Reader.readAll_cons_eq_ok_iff.mpr
        ⟨_, Reader.read_of_step (.flag alone), induction _⟩
  | attached valued _ induction =>
      exact Reader.readAll_cons_eq_ok_iff.mpr
        ⟨_, Reader.read_of_step (.attached valued), induction _⟩
  | separate valued plain _ induction =>
      exact Reader.readAll_cons_eq_ok_iff.mpr
        ⟨_, Reader.read_of_step (.awaiting valued),
          Reader.readAll_cons_eq_ok_iff.mpr
            ⟨_, Reader.read_value plain selection _, induction _⟩⟩
  | short count _ induction =>
      rw [← Selection.foldl_adding]
      exact Reader.readAll_cons_eq_ok_iff.mpr
        ⟨_, Reader.read_of_step (.short count), induction _⟩

private theorem Reader.given_of_readAll {arguments : List String}
    {selection result : Selection}
    (read : readAll ⟨selection, none, false⟩ arguments = .ok result) :
    ∃ options packages, Given arguments options packages ∧
      result = selection.adding options packages := by
  induction measured : arguments.length using Nat.strongRecOn generalizing
    arguments selection with
  | ind length shorter =>
  cases arguments with
  | nil =>
      cases read
      refine ⟨[], [], .nil, ?_⟩
      rw [Selection.adding, List.append_nil]
      rfl
  | cons argument rest =>
      have less : rest.length < length := by
        rw [← measured]
        exact Nat.lt_succ_self _
      rcases readAll_cons_eq_ok_iff.mp read with ⟨next, first, read⟩
      cases step_of_read first with
      | terminator =>
          rw [readAll_ended] at read
          cases read
          exact ⟨[], rest, .terminator, rfl⟩
      | package plain =>
          rcases shorter _ less read rfl with ⟨options, packages, given, rfl⟩
          exact ⟨_, _, .package plain given,
            Selection.addPackage_adding _ _ _ _⟩
      | flag alone =>
          rcases shorter _ less read rfl with ⟨options, packages, given, rfl⟩
          exact ⟨_, _, .flag alone given, rfl⟩
      | attached valued =>
          rcases shorter _ less read rfl with ⟨options, packages, given, rfl⟩
          exact ⟨_, _, .attached valued given, rfl⟩
      | awaiting valued =>
          cases rest with
          | nil => cases read
          | cons value rest =>
              rcases readAll_cons_eq_ok_iff.mp read with ⟨next, second, read⟩
              rcases read_awaiting second with rfl | ⟨plain, rfl⟩
              · exact absurd read readAll_awaiting_ended
              · rcases shorter _ (Nat.lt_of_succ_lt less) read rfl with
                  ⟨options, packages, given, rfl⟩
                exact ⟨_, _, .separate valued plain given, rfl⟩
      | short count =>
          rcases shorter _ less read rfl with ⟨options, packages, given, rfl⟩
          exact ⟨_, _, .short count given, Selection.foldl_adding _ _ _ _⟩

private theorem parse_eq_ok_iff {arguments : List String}
    {selection : Selection} : parse arguments = .ok selection ↔
      ∃ options packages, Given arguments options packages ∧
        selection = Selection.empty.adding options packages := by
  have start : parse arguments = Reader.readAll .start arguments := rfl
  rw [start]
  constructor
  · exact Reader.given_of_readAll
  · rintro ⟨options, packages, given, rfl⟩
    exact given.readAll .empty

private theorem exists_front {argument : String} {rest front back : List String}
    {shape : Shape} (spelled : Shape.ofArgument argument = shape)
    (other : shape ≠ .terminator)
    (ended : argument :: rest = front ++ "--" :: back) (first : "--" ∉ front) :
    ∃ tail, front = argument :: tail ∧ rest = tail ++ "--" :: back ∧
      "--" ∉ tail := by
  cases front with
  | nil =>
      cases ended
      exact absurd spelled.symm other
  | cons argument tail =>
      cases ended
      exact ⟨tail, rfl, rfl, fun later => first (.tail _ later)⟩

/-- What stands behind the first two dashes is named, whatever it looks like. -/
theorem Given.of_terminator {arguments : List String}
    {options : List GivenOption} {packages front back : List String}
    (given : Given arguments options packages)
    (ended : arguments = front ++ "--" :: back) (first : "--" ∉ front) :
    ∃ named, Given front options named ∧ packages = named ++ back := by
  induction given generalizing front with
  | nil => simp at ended
  | terminator =>
      cases front with
      | nil =>
          cases ended
          exact ⟨[], .nil, rfl⟩
      | cons argument front =>
          cases ended
          exact absurd List.mem_cons_self first
  | package plain _ induction =>
      rcases exists_front (Shape.ofArgument_plain plain) nofun ended first with
        ⟨front, rfl, ended, first⟩
      rcases induction ended first with ⟨named, given, rfl⟩
      exact ⟨_, .package plain given, rfl⟩
  | flag alone _ induction =>
      rcases exists_front (Shape.ofArgument_display _) nofun ended first with
        ⟨front, rfl, ended, first⟩
      rcases induction ended first with ⟨named, given, rfl⟩
      exact ⟨named, .flag alone given, rfl⟩
  | attached valued _ induction =>
      rcases exists_front (Shape.ofArgument_attached _ _) nofun ended first
        with ⟨front, rfl, ended, first⟩
      rcases induction ended first with ⟨named, given, rfl⟩
      exact ⟨named, .attached valued given, rfl⟩
  | separate valued plain _ induction =>
      rcases exists_front (Shape.ofArgument_display _) nofun ended first with
        ⟨front, rfl, ended, first⟩
      rcases exists_front (Shape.ofArgument_plain plain) nofun ended first with
        ⟨front, rfl, ended, first⟩
      rcases induction ended first with ⟨named, given, rfl⟩
      exact ⟨named, .separate valued plain given, rfl⟩
  | short count _ induction =>
      rcases exists_front (Shape.ofArgument_short _) nofun ended first with
        ⟨front, rfl, ended, first⟩
      rcases induction ended first with ⟨named, given, rfl⟩
      exact ⟨named, .short count given, rfl⟩

/-! ## Exclusive options -/

namespace GivenOption

def cflagsFilter? (option : GivenOption) : Option Filter :=
  match option.name with
  | .cflags => some .any
  | .cflagsOnlyIncludeDirs => some .includeDirs
  | .cflagsOnlyOther => some .otherCflags
  | _ => none

def libsFilter? (option : GivenOption) : Option Filter :=
  match option.name with
  | .libs => some .any
  | .libsOnlyDirs => some .libDirs
  | .libsOnlyNames => some .libNames
  | .libsOnlyOther => some .otherLibs
  | _ => none

def versionOverride? (option : GivenOption) : Option (Comparator × String) :=
  match option.name with
  | .atleastVersion => some (.greaterOrEqual, option.value)
  | .exactVersion => some (.equal, option.value)
  | .maxVersion => some (.lessOrEqual, option.value)
  | _ => none

def definePrefix? (option : GivenOption) : Option Bool :=
  match option.name with
  | .definePrefix => some true
  | .keepPrefix => some false
  | _ => none

/-- Options that make a choice give way to others that make it, and to no
others. -/
private def Exclusive (choice : GivenOption → Option α) : Prop :=
  ∀ earlier new, (choice earlier).isSome = true →
    Selection.yields earlier.name new.name = (choice new).isSome

private theorem exclusive_cflagsFilter? : Exclusive cflagsFilter? := by
  rintro ⟨earlier, _⟩ ⟨new, _⟩ chosen
  cases earlier
  case cflags | cflagsOnlyIncludeDirs | cflagsOnlyOther =>
    cases new <;> rfl
  all_goals cases chosen

private theorem exclusive_libsFilter? : Exclusive libsFilter? := by
  rintro ⟨earlier, _⟩ ⟨new, _⟩ chosen
  cases earlier
  case libs | libsOnlyDirs | libsOnlyNames | libsOnlyOther =>
    cases new <;> rfl
  all_goals cases chosen

private theorem exclusive_versionOverride? : Exclusive versionOverride? := by
  rintro ⟨earlier, _⟩ ⟨new, _⟩ chosen
  cases earlier
  case atleastVersion | exactVersion | maxVersion =>
    cases new <;> rfl
  all_goals cases chosen

private theorem exclusive_definePrefix? : Exclusive definePrefix? := by
  rintro ⟨earlier, _⟩ ⟨new, _⟩ chosen
  cases earlier
  case definePrefix | keepPrefix =>
    cases new <;> rfl
  all_goals cases chosen

namespace Exclusive

variable {choice : GivenOption → Option α} (exclusive : Exclusive choice)

include exclusive

private theorem earlier_eq (earlier new : GivenOption) :
    (if (!Selection.yields earlier.name new.name) = true then choice earlier
      else none) = if (choice new).isSome then none else choice earlier := by
  cases chosen : choice earlier with
  | none => simp
  | some value =>
      rw [exclusive earlier new (by rw [chosen]; rfl)]
      cases choice new <;> rfl

/-- Of the options that make an exclusive choice, only the last one is in
force. -/
theorem filterMap_inForce (given : List GivenOption) :
    (Selection.inForce [] given).filterMap choice =
      (given.filterMap choice).getLast?.toList := by
  induction given using List.reverseRecOn with
  | nil => rfl
  | append_singleton given option induction =>
      have last : Selection.inForce [] (given ++ [option]) =
          (Selection.inForce [] given).filter (fun earlier =>
            !Selection.yields earlier.name option.name) ++ [option] :=
        List.foldl_append
      rw [last, List.filterMap_append, List.filterMap_filter,
        List.filterMap_append]
      simp only [exclusive.earlier_eq _ option]
      cases chosen : choice option with
      | none =>
          simp only [Option.isSome_none, Bool.false_eq_true, if_false, chosen,
            List.filterMap_cons, List.filterMap_nil, List.append_nil]
          exact induction
      | some value => simp [chosen]

end Exclusive

end GivenOption

/-! ## Selectors -/

private def Picks (choice : GivenOption → Option α)
    (options : List GivenOption) : Option α → Prop
  | some chosen => ∃ option ∈ options, choice option = some chosen
  | none => ∀ option ∈ options, choice option = none

private theorem Picks.eq_of_filterMap {choice : GivenOption → Option α}
    {options : List GivenOption} {picked last : Option α}
    (picks : Picks choice options picked)
    (alone : options.filterMap choice = last.toList) : picked = last := by
  cases picked with
  | none =>
      have none := List.filterMap_eq_nil_iff.mpr picks
      rw [alone] at none
      cases last with
      | none => rfl
      | some _ => cases none
  | some chosen =>
      have listed := List.mem_filterMap.mpr picks
      rw [alone] at listed
      simpa [eq_comm] using listed

namespace Selection

section

variable {selection : Selection} {name : OptionName} {option : GivenOption}

private theorem given_of_has (given : selection.has name = true) :
    ∃ value, ⟨name, value⟩ ∈ selection.options := by
  rcases List.any_eq_true.mp given with ⟨⟨_, value⟩, listed, named⟩
  cases eq_of_beq named
  exact ⟨value, listed⟩

private theorem has_of_mem (listed : option ∈ selection.options) :
    selection.has option.name = true :=
  List.any_eq_true.mpr ⟨option, listed, beq_self_eq_true _⟩

private theorem given_of_value? {value : String}
    (given : selection.value? name = some value) :
    ⟨name, value⟩ ∈ selection.options := by
  rcases List.mem_map.mp (List.mem_of_getLast? given) with
    ⟨⟨_, _⟩, filtered, rfl⟩
  rcases List.mem_filter.mp filtered with ⟨listed, named⟩
  cases eq_of_beq named
  exact listed

private theorem value?_ne_none_of_mem (listed : option ∈ selection.options) :
    selection.value? option.name ≠ none := by
  have filtered : option ∈ selection.options.filter (·.name == option.name) :=
    List.mem_filter.mpr ⟨listed, beq_self_eq_true _⟩
  intro absent
  rw [value?, List.getLast?_eq_none_iff, values, List.map_eq_nil_iff] at absent
  rw [absent] at filtered
  cases filtered

end

variable (selection : Selection)

private theorem picks_find? {choice : GivenOption → Option α}
    (ranked : List (OptionName × α))
    (chooses : ∀ option chosen, choice option = some chosen ↔
      (option.name, chosen) ∈ ranked) :
    Picks choice selection.options
      ((ranked.find? (selection.has ·.1)).map Prod.snd) := by
  cases found : ranked.find? (selection.has ·.1) with
  | none =>
      intro option listed
      cases chosen : choice option with
      | none => rfl
      | some value =>
          have absent := List.find?_eq_none.mp found _
            ((chooses option value).mp chosen)
          exact absurd (has_of_mem listed) absent
  | some first =>
      have given := List.find?_some found
      rcases given_of_has given with ⟨value, listed⟩
      exact ⟨_, listed, (chooses _ _).mpr (List.mem_of_find?_eq_some found)⟩

private theorem picks_cflagsFilter? :
    Picks GivenOption.cflagsFilter? selection.options
      selection.cflagsFilter? := by
  have selected : selection.cflagsFilter? =
      ([(OptionName.cflagsOnlyIncludeDirs, Filter.includeDirs),
        (.cflagsOnlyOther, .otherCflags), (.cflags, .any)].find?
          (selection.has ·.1)).map Prod.snd := by
    simp only [cflagsFilter?, List.find?]
    grind
  rw [selected]
  apply picks_find?
  rintro ⟨name, value⟩ chosen
  cases name <;> simp [GivenOption.cflagsFilter?, eq_comm]

private theorem picks_libsFilter? :
    Picks GivenOption.libsFilter? selection.options selection.libsFilter? := by
  have selected : selection.libsFilter? =
      ([(OptionName.libsOnlyDirs, Filter.libDirs), (.libsOnlyNames, .libNames),
        (.libsOnlyOther, .otherLibs), (.libs, .any)].find?
          (selection.has ·.1)).map Prod.snd := by
    simp only [libsFilter?, List.find?]
    grind
  rw [selected]
  apply picks_find?
  rintro ⟨name, value⟩ chosen
  cases name <;> simp [GivenOption.libsFilter?, eq_comm]

private theorem picks_definePrefix? :
    Picks GivenOption.definePrefix? selection.options
      selection.definePrefix? := by
  have selected : selection.definePrefix? =
      ([(OptionName.definePrefix, true), (.keepPrefix, false)].find?
        (selection.has ·.1)).map Prod.snd := by
    simp only [definePrefix?, List.find?]
    grind
  rw [selected]
  apply picks_find?
  rintro ⟨name, value⟩ chosen
  cases name <;> simp [GivenOption.definePrefix?, eq_comm]

private theorem picks_versionOverride? :
    Picks GivenOption.versionOverride? selection.options
      selection.versionOverride? := by
  unfold versionOverride?
  cases atleast : selection.value? .atleastVersion with
  | some version => exact ⟨_, given_of_value? atleast, rfl⟩
  | none =>
      cases exactly : selection.value? .exactVersion with
      | some version => exact ⟨_, given_of_value? exactly, rfl⟩
      | none =>
          cases atMost : selection.value? .maxVersion with
          | some version => exact ⟨_, given_of_value? atMost, rfl⟩
          | none =>
              rintro ⟨name, value⟩ listed
              have given := value?_ne_none_of_mem listed
              cases name
              case atleastVersion => exact absurd atleast given
              case exactVersion => exact absurd exactly given
              case maxVersion => exact absurd atMost given
              all_goals rfl

end Selection

/-- Of the options for compiler flags, for linker flags, for a version and for
the prefix, the last one given selects, and nothing is selected where none is
given. What stands behind the first two dashes is named, options or not. -/
theorem last_selection_wins {arguments : List String} {selection : Selection}
    (parsed : parse arguments = .ok selection) :
    (∃ options packages, Given arguments options packages) ∧
      ∀ options packages, Given arguments options packages →
        selection.cflagsFilter? =
          (options.filterMap GivenOption.cflagsFilter?).getLast? ∧
        selection.libsFilter? =
          (options.filterMap GivenOption.libsFilter?).getLast? ∧
        selection.versionOverride? =
          (options.filterMap GivenOption.versionOverride?).getLast? ∧
        selection.definePrefix? =
          (options.filterMap GivenOption.definePrefix?).getLast? ∧
        selection.packages = packages ∧
        ∀ front back, arguments = front ++ "--" :: back → "--" ∉ front →
          ∃ named, Given front options named ∧ packages = named ++ back := by
  constructor
  · rcases parse_eq_ok_iff.mp parsed with ⟨options, packages, given, _⟩
    exact ⟨options, packages, given⟩
  · intro options packages given
    have reparsed := parse_eq_ok_iff.mpr ⟨options, packages, given, rfl⟩
    cases parsed.symm.trans reparsed
    refine ⟨?_, ?_, ?_, ?_, rfl, fun front back => given.of_terminator⟩
    · exact (Selection.picks_cflagsFilter? _).eq_of_filterMap
        (GivenOption.exclusive_cflagsFilter?.filterMap_inForce options)
    · exact (Selection.picks_libsFilter? _).eq_of_filterMap
        (GivenOption.exclusive_libsFilter?.filterMap_inForce options)
    · exact (Selection.picks_versionOverride? _).eq_of_filterMap
        (GivenOption.exclusive_versionOverride?.filterMap_inForce options)
    · exact (Selection.picks_definePrefix? _).eq_of_filterMap
        (GivenOption.exclusive_definePrefix?.filterMap_inForce options)

/-! Options of all four kinds in both orders, with a value that is attached and
one that follows, and an option behind two dashes. -/

namespace MixedOptions

def arguments : List String :=
  ["--cflags-only-I", "--libs", "--atleast-version=1", "x", "--cflags", "-hh",
    "--max-version", "2", "--libs-only-l", "--dont-define-prefix",
    "--define-prefix", "--", "--libs"]

def options : List GivenOption :=
  [⟨.cflagsOnlyIncludeDirs, ""⟩, ⟨.libs, ""⟩, ⟨.atleastVersion, "1"⟩,
    ⟨.cflags, ""⟩, ⟨.help, ""⟩, ⟨.help, ""⟩, ⟨.maxVersion, "2"⟩,
    ⟨.libsOnlyNames, ""⟩, ⟨.keepPrefix, ""⟩, ⟨.definePrefix, ""⟩]

theorem given : Given arguments options ["x", "--libs"] := by
  apply @Given.flag _ _ _ .cflagsOnlyIncludeDirs rfl
  apply @Given.flag _ _ _ .libs rfl
  apply @Given.attached _ _ _ "1" .atleastVersion rfl
  apply Given.package (.inr (by decide))
  apply @Given.flag _ _ _ .cflags rfl
  apply Given.short 1
  apply @Given.separate _ _ _ _ .maxVersion rfl (.inr (by decide))
  apply @Given.flag _ _ _ .libsOnlyNames rfl
  apply @Given.flag _ _ _ .keepPrefix rfl
  apply @Given.flag _ _ _ .definePrefix rfl
  exact .terminator

theorem last_of_mixed_options_wins : ∃ selection,
    parse arguments = .ok selection ∧
    selection.cflagsFilter? = some .any ∧
    selection.libsFilter? = some .libNames ∧
    selection.versionOverride? = some (.lessOrEqual, "2") ∧
    selection.definePrefix? = some true ∧
    selection.packages = ["x", "--libs"] := by
  have parsed := parse_eq_ok_iff.mpr ⟨_, _, given, rfl⟩
  rcases (last_selection_wins parsed).2 _ _ given with
    ⟨cflags, libs, version, placed, packages, _⟩
  exact ⟨_, parsed, cflags, libs, version, placed, packages⟩

end MixedOptions

end PkgConfig.CommandLine
