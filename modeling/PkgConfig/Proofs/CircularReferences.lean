import PkgConfig.Proofs.ExpansionSteps

namespace PkgConfig.Expansion

/-! References that come back to themselves. Evaluating a text from left to right
may come to a variable in whose value it already is. From there the same part of
the value is evaluated again and again, each time nested deeper, until one of the
limits stops it. -/

/-! ## Coming to a reference -/

/-- Evaluating the text comes to a reference that meets the condition, when the
variables `opened` are being evaluated, the innermost first. What stands in front
of the reference has a meaning. -/
inductive ComesTo (scope : Scope)
    (condition : List String → String → Prop) :
    List String → List Char → Prop
  | here (met : condition opened (String.ofList (referenceName text))) :
      ComesTo scope condition opened ('$' :: '\x7b' :: text)
  | inside
      (bound : scope.find? (String.ofList (referenceName text)) = some value)
      (inner : ComesTo scope condition
        (String.ofList (referenceName text) :: opened) value.toList) :
      ComesTo scope condition opened ('$' :: '\x7b' :: text)
  | behind
      (bound : scope.find? (String.ofList (referenceName text)) = some value)
      (inner : Substitutes scope value.toList written nesting)
      (rest : ComesTo scope condition opened (afterReference text)) :
      ComesTo scope condition opened ('$' :: '\x7b' :: text)
  | dollar (rest : ComesTo scope condition opened text) :
      ComesTo scope condition opened ('$' :: '$' :: text)
  | literal (plain : isMarked (character :: text) = false)
      (rest : ComesTo scope condition opened text) :
      ComesTo scope condition opened (character :: text)

def Circular (scope : Scope) : List String → List Char → Prop :=
  ComesTo scope fun opened name => name ∈ opened

/-- The variables that are being evaluated, each of which came to the next one
and will come back to one of them. -/
inductive Opened (scope : Scope) : List String → Prop
  | nil : Opened scope []
  | cons (bound : scope.find? name = some value)
      (circular : Circular scope (name :: outer) value.toList)
      (opened : Opened scope outer) : Opened scope (name :: outer)

theorem Opened.exists_value {scope : Scope} {names : List String}
    {name : String} (opened : Opened scope names) (member : name ∈ names) :
    ∃ value outer, scope.find? name = some value ∧
      Circular scope (name :: outer) value.toList ∧
      Opened scope (name :: outer) := by
  induction opened with
  | nil => cases member
  | cons bound circular opened induction =>
      rcases List.mem_cons.mp member with rfl | member
      · exact ⟨_, _, bound, circular, .cons bound circular opened⟩
      · exact induction member

/-! ## Limits -/

def IsLimit (path : String) (error : Error) : Prop :=
  error = .expansionTooDeep path ∨ error = .outOfMemory

def OnlyLimited (path : String) (run : Run α) : Prop :=
  ∀ before error after, run before = .error error after → IsLimit path error

def AlwaysLimited (path : String) (run : Run α) : Prop :=
  ∀ before, ∃ error after, run before = .error error after ∧
    IsLimit path error

namespace OnlyLimited

variable {path : String}

theorem throw {error : Error} (limit : IsLimit path error) :
    OnlyLimited path (throw error : Run α) := by
  intro before error after failed
  cases failed
  exact limit

theorem bind {first : Run α} {second : α → Run β}
    (earlier : OnlyLimited path first)
    (later : ∀ value, OnlyLimited path (second value)) :
    OnlyLimited path (first >>= second) := by
  intro before error after failed
  rcases Run.bind_eq_error_iff.mp failed with failed | ⟨_, _, _, failed⟩
  · exact earlier _ _ _ failed
  · exact later _ _ _ _ failed

theorem append (path output : String) (text : List Char) :
    OnlyLimited path (Run.append output text) := by
  intro before error after failed
  cases text with
  | nil => cases failed
  | cons character rest =>
      simp only [Run.append] at failed
      rcases Run.bind_eq_error_iff.mp failed with refused | ⟨_, _, _, failed⟩
      · rcases Run.charge_cases (Text.byteLength (character :: rest)) before
          with ⟨_, charged, _⟩ | ⟨_, noted⟩
        · cases charged.symm.trans refused
        · cases noted.symm.trans refused
          exact .inr rfl
      · cases failed

end OnlyLimited

namespace AlwaysLimited

variable {path : String}

theorem throw {error : Error} (limit : IsLimit path error) :
    AlwaysLimited path (throw error : Run α) :=
  fun before => ⟨error, before, rfl, limit⟩

theorem bind {first : Run α} (second : α → Run β)
    (stopped : AlwaysLimited path first) :
    AlwaysLimited path (first >>= second) := by
  intro before
  rcases stopped before with ⟨error, after, failed, limit⟩
  exact ⟨error, after, Run.bind_eq_error_iff.mpr (.inl failed), limit⟩

private theorem bind_later {first : Run α} {second : α → Run β}
    (earlier : OnlyLimited path first)
    (stopped : ∀ value, AlwaysLimited path (second value)) :
    AlwaysLimited path (first >>= second) := by
  intro before
  cases passed : first before with
  | error error after =>
      exact ⟨error, after, Run.bind_eq_error_iff.mpr (.inl passed),
        earlier _ _ _ passed⟩
  | ok value between =>
      rcases stopped value between with ⟨error, after, failed, limit⟩
      exact ⟨error, after,
        Run.bind_eq_error_iff.mpr (.inr ⟨value, between, passed, failed⟩),
        limit⟩

end AlwaysLimited

/-! ## Substitution -/

section Reference

variable (scope : Scope) (path : String) (front : List Char) (output : String)
  (text : List Char)

private theorem substitute_refused :
    substitute scope path 0 front output ('$' :: '\x7b' :: text) =
      throw (.expansionTooDeep path) := by
  rw [substitute]

theorem substitute_bound (room : Nat) {value : String}
    (bound : scope.find? (String.ofList (referenceName text)) = some value) :
    substitute scope path (room + 1) front output ('$' :: '\x7b' :: text) =
      Run.append output front >>= fun output =>
        substitute scope path room [] output value.toList >>= fun output =>
          substitute scope path (room + 1) [] output (afterReference text) := by
  rw [substitute]
  simp only [bound]

private theorem substitute_unbound (room : Nat)
    (unbound : scope.find? (String.ofList (referenceName text)) = none) :
    substitute scope path (room + 1) front output ('$' :: '\x7b' :: text) =
      Run.append output front >>= fun _ =>
        throw (.undefinedVariable (String.ofList (referenceName text)) path)
    := by
  rw [substitute]
  simp only [unbound]

end Reference

private theorem Substitutes.substitute_eq {scope : Scope}
    {text written : List Char} {nesting room : Nat} {before after : Ledger}
    (substitutes : Substitutes scope text written nesting) (path : String)
    (deep : nesting ≤ room) (output : String)
    (charged : before.Charged (Text.byteLength written) after) :
    substitute scope path room [] output text before =
      .ok (String.ofList (output.toList ++ written)) after :=
  (faithful scope path room text).mpr
    ⟨written, nesting, substitutes, deep, String.toList_ofList, charged⟩

private theorem Substitutes.onlyLimited {scope : Scope}
    {text written : List Char}
    {nesting : Nat} (substitutes : Substitutes scope text written nesting)
    (path : String) (room : Nat) (front : List Char) (output : String) :
    OnlyLimited path (substitute scope path room front output text) := by
  induction substitutes generalizing room front output with
  | done =>
      rw [substitute]
      exact .append path output front
  | dollar _ induction =>
      rw [substitute]
      exact .bind (.append path output _) fun output => induction room [] output
  | @reference text value first depth second nesting bound _ _ inner rest =>
      cases room with
      | zero =>
          rw [substitute_refused]
          exact .throw (.inl rfl)
      | succ room =>
          rw [substitute_bound scope path front output text room bound]
          refine .bind (.append path output front) fun output => ?_
          exact .bind (inner room [] output) fun output =>
            rest (room + 1) [] output
  | literal plain _ induction =>
      rw [substitute_literal plain]
      exact induction room _ output

section Stopped

variable {scope : Scope} {path value : String} {text : List Char} {room : Nat}
  (bound : scope.find? (String.ofList (referenceName text)) = some value)

include bound

theorem AlwaysLimited.inside
    (stopped : ∀ less < room, ∀ output,
      AlwaysLimited path (substitute scope path less [] output value.toList))
    (front : List Char) (output : String) :
    AlwaysLimited path
      (substitute scope path room front output ('$' :: '\x7b' :: text)) := by
  cases room with
  | zero =>
      rw [substitute_refused]
      exact .throw (.inl rfl)
  | succ room =>
      rw [substitute_bound scope path front output text room bound]
      refine .bind_later (.append path output front) fun output => ?_
      exact .bind _ (stopped room (Nat.lt_succ_self room) output)

theorem AlwaysLimited.behind
    (inner : ∀ less output,
      OnlyLimited path (substitute scope path less [] output value.toList))
    (stopped : ∀ output, AlwaysLimited path
      (substitute scope path room [] output (afterReference text)))
    (front : List Char) (output : String) :
    AlwaysLimited path
      (substitute scope path room front output ('$' :: '\x7b' :: text)) := by
  cases room with
  | zero =>
      rw [substitute_refused]
      exact .throw (.inl rfl)
  | succ room =>
      rw [substitute_bound scope path front output text room bound]
      refine .bind_later (.append path output front) fun output => ?_
      exact .bind_later (inner room output) stopped

end Stopped

/-- The induction is on the room for nesting, and for the same room on the way to
the reference. A circular reference is met with less room than there was when its
variable was opened, and then its value is evaluated in the same way again. -/
theorem Circular.alwaysLimited {scope : Scope} {names : List String}
    {text : List Char} (circular : Circular scope names text)
    (opened : Opened scope names) (path : String) (room : Nat)
    (front : List Char) (output : String) :
    AlwaysLimited path (substitute scope path room front output text) := by
  induction room using Nat.strongRecOn generalizing names text front output with
  | ind room nested =>
  induction circular generalizing front output with
  | here again =>
      -- The value is evaluated as it was when the variable was opened first.
      rcases opened.exists_value again with
        ⟨value, outer, bound, circular, opened⟩
      exact .inside bound
        (fun less within => nested less within circular opened []) front output
  | inside bound inner =>
      exact .inside bound (fun less within =>
        nested less within inner (.cons bound inner opened) []) front output
  | behind bound inner _ rest =>
      exact .behind bound (fun less => inner.onlyLimited path less [])
        (rest opened []) front output
  | dollar _ induction =>
      rw [substitute]
      exact .bind_later (.append path output _) fun output =>
        induction opened [] output
  | literal plain _ induction =>
      rw [substitute_literal plain]
      exact induction opened _ output

/-! ## Texts without a meaning -/

theorem ComesTo.or {scope : Scope} {first second : List String → String → Prop}
    {opened : List String} {text : List Char}
    (comes : ComesTo scope
      (fun opened name => first opened name ∨ second opened name)
      opened text) :
    ComesTo scope first opened text ∨ ComesTo scope second opened text := by
  induction comes with
  | here met => exact met.imp .here .here
  | inside bound _ induction =>
      exact induction.imp (.inside bound) (.inside bound)
  | behind bound inner _ induction =>
      exact induction.imp (.behind bound inner) (.behind bound inner)
  | dollar _ induction => exact induction.imp .dollar .dollar
  | literal plain _ induction =>
      exact induction.imp (.literal plain) (.literal plain)

def Covered (scope : Scope) (opened remaining : List String) : Prop :=
  ∀ name value, scope.find? name = some value → name ∈ opened ∨ name ∈ remaining

theorem Covered.cons {scope : Scope} {opened remaining : List String}
    (covered : Covered scope opened remaining) (name : String) :
    Covered scope (name :: opened) (remaining.erase name) := by
  intro other value bound
  by_cases same : other = name
  · exact .inl (List.mem_cons.mpr (.inl same))
  · rw [List.mem_cons, List.mem_erase_of_ne same, or_assoc]
    exact .inr (covered other value bound)

/-- A text means something, or there is a reference that keeps it from meaning
anything. The induction is on the variables that are not opened yet, and for the
same variables on the text. -/
theorem means_or_comesTo {scope : Scope} {opened remaining : List String}
    (covered : Covered scope opened remaining) (text : List Char) :
    (∃ written nesting, Substitutes scope text written nesting) ∨
      ComesTo scope (fun opened name =>
        name ∈ opened ∨ scope.find? name = none) opened text := by
  induction left : remaining.length using Nat.strongRecOn generalizing
    remaining opened text with
  | ind left fewer =>
  induction measured : text.length using Nat.strongRecOn generalizing text with
  | ind length shorter =>
      rcases text_cases text with rfl | ⟨rest, rfl⟩ | ⟨rest, rfl⟩ |
        ⟨character, rest, rfl, plain⟩
      · exact .inl ⟨[], 0, .done⟩
      · simp only [List.length_cons] at measured
        rcases shorter _ (by omega) rest rfl with ⟨_, _, means⟩ | stuck
        · exact .inl ⟨_, _, .dollar means⟩
        · exact .inr (.dollar stuck)
      · by_cases again : String.ofList (referenceName rest) ∈ opened
        · exact .inr (.here (.inl again))
        cases bound : scope.find? (String.ofList (referenceName rest)) with
        | none => exact .inr (.here (.inr bound))
        | some value =>
            have member := (covered _ _ bound).resolve_left again
            have erased := List.length_erase_of_mem member
            have positive := List.length_pos_of_mem member
            have within := length_afterReference rest
            simp only [List.length_cons] at measured
            have opens := covered.cons (String.ofList (referenceName rest))
            rcases fewer _ (by omega) opens value.toList rfl with
              ⟨_, _, inner⟩ | stuck
            · rcases shorter _ (by omega) (afterReference rest) rfl with
                ⟨_, _, means⟩ | stuck
              · exact .inl ⟨_, _, .reference bound inner means⟩
              · exact .inr (.behind bound inner stuck)
            · exact .inr (.inside bound stuck)
      · simp only [List.length_cons] at measured
        rcases shorter _ (by omega) rest rfl with ⟨_, _, means⟩ | stuck
        · exact .inl ⟨_, _, .literal plain means⟩
        · exact .inr (.literal plain stuck)

def Unbound (scope : Scope) : List String → List Char → Prop :=
  ComesTo scope fun _ name => scope.find? name = none

private theorem mem_of_lookupEntry {Value : Type} {name : String}
    {value : Value} {entries : List (String × Value)}
    (found : lookupEntry name entries = some value) :
    name ∈ entries.map Prod.fst := by
  induction entries with
  | nil => cases found
  | cons entry rest induction =>
      rw [List.map_cons, List.mem_cons]
      rw [lookupEntry] at found
      split at found
      next same => exact .inl (Std.LawfulEqOrd.eq_of_compare same)
      · exact .inr (induction found)

/-- There are three kinds of texts: those that mean something, and those whose
evaluation comes to a circular reference or to one that is not bound. -/
theorem evaluation_cases (scope : Scope) (text : List Char) :
    (∃ written nesting, Substitutes scope text written nesting) ∨
      Circular scope [] text ∨ Unbound scope [] text := by
  have covered :
      Covered scope [] (scope.globals.keys ++ scope.locals.keys) := by
    intro name value found
    refine .inr (List.mem_append.mpr ?_)
    unfold Scope.find? at found
    split at found
    next other => exact .inl (mem_of_lookupEntry other)
    · exact .inr (mem_of_lookupEntry found)
  exact (means_or_comesTo covered text).imp_right ComesTo.or

/-- Substitution in the text reports an unbound variable, if references may be
nested so deep and the budget has room for so many bytes. -/
private def Reports (scope : Scope) (path : String) (text : List Char)
    (depth bytes : Nat) : Prop :=
  ∀ room ≥ depth, ∀ (front : List Char) (output : String) (before : Ledger),
    before.used + Text.byteLength front + bytes ≤ before.budget.capacity →
    ∃ name after, substitute scope path room front output text before =
      .error (.undefinedVariable name path) after

private theorem append_bind_eq_error {output : String} {text : List Char}
    {next : String → Run α} {error : Error} {before between after : Ledger}
    (charged : before.Charged (Text.byteLength text) between)
    (failed : next (String.ofList (output.toList ++ text)) between =
      .error error after) :
    (Run.append output text >>= next) before = .error error after :=
  Run.bind_eq_error_iff.mpr (.inr ⟨_, between,
    Run.append_eq_ok_iff.mpr ⟨String.toList_ofList, charged⟩, failed⟩)

private theorem exists_between {before : Ledger} {first rest : Nat}
    (fits : before.used + first + rest ≤ before.budget.capacity) :
    ∃ between, before.Charged first between ∧
      between.used + rest ≤ between.budget.capacity := by
  rcases Ledger.Charged.exists_of_fits (Nat.le_of_add_right_le fits) with
    ⟨between, charged⟩
  refine ⟨between, charged, ?_⟩
  rw [charged.used, charged.capacity]
  exact fits

private theorem Unbound.exists_reports {scope : Scope} {opened : List String}
    {text : List Char} (unbound : Unbound scope opened text) (path : String) :
    ∃ depth bytes, Reports scope path text depth bytes := by
  induction unbound with
  | here absent =>
      refine ⟨1, 0, fun room deep front output before fits => ?_⟩
      rcases exists_between fits with ⟨between, charged, _⟩
      rcases Nat.exists_eq_add_of_le' deep with ⟨room, rfl⟩
      rw [substitute_unbound scope path front output _ room absent]
      exact ⟨_, between, append_bind_eq_error charged rfl⟩
  | inside bound _ induction =>
      rcases induction with ⟨depth, bytes, reports⟩
      refine ⟨depth + 1, bytes, fun room deep front output before fits => ?_⟩
      rcases exists_between fits with ⟨between, charged, fits⟩
      rcases Nat.exists_eq_add_of_le' (Nat.le_of_add_left_le deep) with
        ⟨room, rfl⟩
      rcases reports room (Nat.le_of_succ_le_succ deep) []
        (String.ofList (output.toList ++ front)) between
        (by simpa using fits) with ⟨name, after, reported⟩
      rw [substitute_bound scope path front output _ room bound]
      exact ⟨name, after, append_bind_eq_error charged
        (Run.bind_eq_error_iff.mpr (.inl reported))⟩
  | @behind text value written nesting opened bound inner _ induction =>
      rcases induction with ⟨depth, bytes, reports⟩
      refine ⟨max (nesting + 1) depth, Text.byteLength written + bytes,
        fun room deep front output before fits => ?_⟩
      rcases Nat.max_le.mp deep with ⟨deepInner, deep⟩
      rcases exists_between fits with ⟨between, charged, fits⟩
      rw [← Nat.add_assoc] at fits
      rcases exists_between fits with ⟨middle, chargedInner, fits⟩
      rcases Nat.exists_eq_add_of_le' (Nat.le_of_add_left_le deepInner) with
        ⟨room, rfl⟩
      have value := inner.substitute_eq path (Nat.le_of_succ_le_succ deepInner)
        (String.ofList (output.toList ++ front)) chargedInner
      rcases reports (room + 1) deep [] _ middle (by simpa using fits) with
        ⟨name, after, reported⟩
      rw [substitute_bound scope path front output _ room bound]
      exact ⟨name, after, append_bind_eq_error charged
        (Run.bind_eq_error_iff.mpr (.inr ⟨_, middle, value, reported⟩))⟩
  | dollar _ induction =>
      rcases induction with ⟨depth, bytes, reports⟩
      refine ⟨depth, 1 + bytes, fun room deep front output before fits => ?_⟩
      have longer : Text.byteLength (front ++ ['$']) =
          Text.byteLength front + 1 := Text.byteLength_append _ _
      have fits : before.used + Text.byteLength (front ++ ['$']) + bytes ≤
          before.budget.capacity := by
        omega
      rcases exists_between fits with ⟨between, charged, fits⟩
      rcases reports room deep [] _ between (by simpa using fits) with
        ⟨name, after, reported⟩
      rw [substitute]
      exact ⟨name, after, append_bind_eq_error charged reported⟩
  | @literal character text opened plain _ induction =>
      rcases induction with ⟨depth, bytes, reports⟩
      refine ⟨depth, character.utf8Size + bytes,
        fun room deep front output before fits => ?_⟩
      rw [substitute_literal plain]
      refine reports room deep _ output before ?_
      simp only [Text.byteLength_append, Text.byteLength_cons,
        Text.byteLength_nil]
      omega

/-- The texts that only limits keep from being evaluated, however generous these
are, are those with circular references. -/
theorem circular_iff_alwaysLimited (scope : Scope) (path : String)
    (text : List Char) :
    Circular scope [] text ↔
      ∀ room, AlwaysLimited path (substitute scope path room [] "" text) := by
  constructor
  · intro circular room
    exact circular.alwaysLimited .nil path room [] ""
  · intro limited
    rcases evaluation_cases scope text with
      ⟨written, nesting, means⟩ | circular | unbound
    · have fits : (Ledger.fresh (Text.byteLength written)).used +
          Text.byteLength written ≤ Text.byteLength written := by
        simp [Ledger.fresh, Ledger.used, Budget.fresh]
      rcases Ledger.Charged.exists_of_fits fits with ⟨after, charged⟩
      have expanded := means.substitute_eq path (Nat.le_refl _) "" charged
      rcases limited nesting (.fresh (Text.byteLength written)) with
        ⟨error, other, failed, _⟩
      cases expanded.symm.trans failed
    · exact circular
    · rcases unbound.exists_reports path with ⟨depth, bytes, reports⟩
      rcases reports depth (Nat.le_refl _) [] "" (.fresh bytes)
        (by simp [Ledger.fresh, Ledger.used, Budget.fresh]) with
        ⟨name, after, reported⟩
      rcases limited depth (.fresh bytes) with ⟨error, other, failed, limit⟩
      cases reported.symm.trans failed
      rcases limit with same | same <;> cases same

/-! ## Expansion -/

/-- Whatever the variables refer to, expansion goes through finitely many states,
with at most 128 fragments on the stack and no more text than the budget has room
for. With a circular reference it always reaches one of these limits. -/
theorem expand_within_limits (scope : Scope) (path text : String)
    (before : Ledger) :
    (∃ visited,
      Machine.Runs (.ofScope scope) path (.start text.toList) before visited
        (expand scope path text before) ∧
      ∀ machine ∈ visited, machine.fragments.length ≤ 128 ∧
        machine.output.utf8ByteSize ≤ before.budget.remaining) ∧
    (∀ result after, expand scope path text before = .ok result after →
      result.utf8ByteSize ≤ before.budget.remaining) ∧
    (Circular scope [] text.toList →
      ∃ error after, expand scope path text before = .error error after ∧
        (error = .expansionTooDeep path ∨ error = .outOfMemory)) := by
  rcases Machine.exists_runs (.ofScope scope) path (.start text.toList) before
    with ⟨visited, runs⟩
  have bounded : ∀ machine ∈ visited,
      machine.output.utf8ByteSize ≤ before.budget.remaining := by
    intro machine listed
    have fits := runs.output_fits machine listed
    rw [Text.byteLength_eq_utf8ByteSize, String.ofList_toList] at fits
    simpa [Machine.start] using fits
  refine ⟨⟨visited, runs, fun machine listed =>
    ⟨machine.fragments_length_le, bounded machine listed⟩⟩, ?_, ?_⟩
  · intro result after expanded
    change Machine.Runs _ path _ before visited (expand scope path text before)
      at runs
    rw [expanded] at runs
    rcases runs.exists_output with ⟨machine, listed, rfl⟩
    exact bounded machine listed
  · intro circular
    rw [expand_eq_substitute]
    exact circular.alwaysLimited .nil path 127 [] "" before

namespace MutualReferences

def scope : Scope where
  globals := .empty
  locals := .ofList [("x", "a$\x7by\x7d"), ("y", "$\x7bx\x7d")]

private theorem circular : Circular scope [] "$\x7bx\x7d".toList := by
  have x : scope.find? "x" = some "a$\x7by\x7d" := by decide
  have y : scope.find? "y" = some "$\x7bx\x7d" := by decide
  have again : Circular scope ["y", "x"] "$\x7bx\x7d".toList :=
    .here (by decide)
  have inside : Circular scope ["x"] "a$\x7by\x7d".toList :=
    .literal (by decide) (.inside y again)
  exact .inside x inside

theorem expand_within_limits_mutual :
    Circular scope [] "$\x7bx\x7d".toList ∧
    ∃ error after,
      expand scope "x.pc" "$\x7bx\x7d" (.fresh 1000) = .error error after ∧
      (error = .expansionTooDeep "x.pc" ∨ error = .outOfMemory) :=
  ⟨circular, (expand_within_limits scope "x.pc" "$\x7bx\x7d"
    (.fresh 1000)).2.2 circular⟩

end MutualReferences

end PkgConfig.Expansion
