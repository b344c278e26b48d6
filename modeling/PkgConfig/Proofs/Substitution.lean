import PkgConfig.Expansion
import PkgConfig.Proofs.Charges

namespace PkgConfig.Expansion

/-! Expansion without its stack of fragments. A text is copied from left to
right, and the value of a reference is expanded where the reference stands, by
recursion. Instead of a stack there is the number of references that may still
be nested. -/

/-! ## Reading references -/

def referenceName (text : List Char) : List Char :=
  text.takeWhile (· != '\x7d')

def afterReference (text : List Char) : List Char :=
  (text.dropWhile (· != '\x7d')).drop 1

def isMarked : List Char → Bool
  | '$' :: '$' :: _ => true
  | '$' :: '\x7b' :: _ => true
  | _ => false

theorem length_afterReference (text : List Char) :
    (afterReference text).length ≤ text.length := by
  have shorter : (text.dropWhile (· != '\x7d')).length ≤ text.length :=
    (List.dropWhile_sublist _).length_le
  simp only [afterReference, List.length_drop]
  omega

/-! ## The semantics -/

/-- `Substitutes scope text written nesting`: substituting values for references
makes `written` out of the text, with references nested `nesting` deep. -/
inductive Substitutes (scope : Scope) : List Char → List Char → Nat → Prop
  | done : Substitutes scope [] [] 0
  | dollar (rest : Substitutes scope text written nesting) :
      Substitutes scope ('$' :: '$' :: text) ('$' :: written) nesting
  | reference
      (bound : scope.find? (String.ofList (referenceName text)) = some value)
      (inner : Substitutes scope value.toList first depth)
      (rest : Substitutes scope (afterReference text) second nesting) :
      Substitutes scope ('$' :: '\x7b' :: text) (first ++ second)
        (max (depth + 1) nesting)
  | literal (plain : isMarked (character :: text) = false)
      (rest : Substitutes scope text written nesting) :
      Substitutes scope (character :: text) (character :: written) nesting

/-- Substitution as it is carried out: `front` has been passed since the last
reference or doubled dollar sign, and is written when the next one is met. A
reference that would be nested too deep is refused before that, one that is not
bound after it. -/
def substitute (scope : Scope) (path : String) (room : Nat)
    (front : List Char) (output : String) : List Char → Run String
  | [] => Run.append output front
  | '$' :: '$' :: text => do
      let output ← Run.append output (front ++ ['$'])
      substitute scope path room [] output text
  | '$' :: '\x7b' :: text =>
      match room with
      | 0 => throw (.expansionTooDeep path)
      | room + 1 => do
          let output ← Run.append output front
          let name := String.ofList (referenceName text)
          match scope.find? name with
          | none => throw (.undefinedVariable name path)
          | some value => do
              let output ← substitute scope path room [] output value.toList
              substitute scope path (room + 1) [] output (afterReference text)
  | character :: text =>
      substitute scope path room (front ++ [character]) output text
termination_by text => (room, text.length)
decreasing_by
  · exact .right _ (Nat.lt_succ_of_lt (Nat.lt_succ_self _))
  · exact .left _ _ (Nat.lt_succ_self _)
  · exact .right _ (Nat.lt_succ_of_le
      (Nat.le_succ_of_le (length_afterReference text)))
  · exact .right _ (Nat.lt_succ_self _)

/-! ## Shapes of texts -/

theorem text_cases (text : List Char) :
    text = [] ∨ (∃ rest, text = '$' :: '$' :: rest) ∨
      (∃ rest, text = '$' :: '\x7b' :: rest) ∨
      ∃ character rest, text = character :: rest ∧
        isMarked (character :: rest) = false := by
  cases text with
  | nil => exact .inl rfl
  | cons character rest =>
      cases marked : isMarked (character :: rest) with
      | false => exact .inr (.inr (.inr ⟨_, _, rfl, marked⟩))
      | true =>
          unfold isMarked at marked
          split at marked
          next same => exact .inr (.inl ⟨_, same⟩)
          next same => exact .inr (.inr (.inl ⟨_, same⟩))
          · cases marked

theorem substitute_literal {character : Char} {text : List Char}
    (plain : isMarked (character :: text) = false) (scope : Scope)
    (path : String) (room : Nat) (front : List Char) (output : String) :
    substitute scope path room front output (character :: text) =
      substitute scope path room (front ++ [character]) output text := by
  rw [substitute]
  · rintro rest rfl rfl
    cases plain
  · rintro rest rfl rfl
    cases plain

private theorem search_literal {character : Char} {text : List Char}
    (plain : isMarked (character :: text) = false) (passed : List Char) :
    Cut.search passed (character :: text) =
      Cut.search (character :: passed) text := by
  rw [Cut.search]
  · rintro rest rfl rfl
    cases plain
  · rintro rest rfl rfl
    cases plain

private theorem cutName_eq (name : String) (text : List Char) :
    cutName name text =
      (name ++ String.ofList (referenceName text), afterReference text) := by
  induction text generalizing name with
  | nil => simp [cutName, referenceName, afterReference]
  | cons character rest induction =>
      by_cases brace : character = '\x7d'
      · rw [brace]
        simp [cutName, referenceName, afterReference]
      · have joined : name.push character ++
            String.ofList (referenceName rest) =
              name ++ String.ofList (character :: referenceName rest) := by
          rw [← String.toList_inj]
          simp
        rw [cutName, induction, joined]
        · simp [referenceName, afterReference, brace]
        · exact brace

/-! ## The stack -/

private def resume (scope : Scope) (path : String) (room : Nat)
    (output : String) (text : List Char) : Cut → Run String
  | .literal => Run.append output text
  | .dollar front rest => do
      let output ← Run.append output front
      substitute scope path room [] output rest
  | .reference front name rest =>
      match room with
      | 0 => throw (.expansionTooDeep path)
      | room + 1 => do
          let output ← Run.append output front
          match scope.find? name with
          | none => throw (.undefinedVariable name path)
          | some value => do
              let output ← substitute scope path room [] output value.toList
              substitute scope path (room + 1) [] output rest

private theorem substitute_eq_resume (scope : Scope) (path : String)
    (room : Nat) (front : List Char) (output : String) (text : List Char) :
    substitute scope path room front output text =
      resume scope path room output (front ++ text)
        (Cut.search front.reverse text) := by
  induction text generalizing front with
  | nil => simp [substitute, Cut.search, resume]
  | cons head tail induction =>
      rcases text_cases (head :: tail) with empty | ⟨rest, same⟩ |
        ⟨rest, same⟩ | ⟨character, rest, same, plain⟩
      · cases empty
      · cases same
        simp [substitute, Cut.search, resume]
      · cases same
        rw [substitute.eq_def]
        simp [Cut.search, resume, cutName_eq]
      · cases same
        rw [substitute_literal plain, search_literal plain, induction]
        simp

namespace Machine

def ofStack (fragments : List (List Char)) (output : String)
    (bounded : fragments.length ≤ maxFragments) : Machine :=
  ⟨fragments, fragments.length, output, rfl, bounded⟩

private theorem run_empty (values : Values) (path output : String)
    (bounded : [].length ≤ maxFragments) :
    run values path (ofStack [] output bounded) = pure output := by
  funext ledger
  rw [run]
  rfl

theorem run_eq_step (values : Values) (path : String) {machine : Machine}
    (pending : machine.fragments ≠ []) :
    run values path machine =
      step values path machine >>= run values path := by
  funext ledger
  rw [run, dif_neg pending]
  simp only [bind, EStateM.bind]
  split <;> rename_i stepped <;> simp only [stepped]

/-- The topmost fragment is substituted in, whatever waits below it. -/
theorem run_fragment (scope : Scope) (path : String) (room : Nat)
    (text : List Char) (below : List (List Char)) (output : String)
    (bounded : (text :: below).length ≤ maxFragments)
    (enough : (text :: below).length + room = maxFragments) :
    run (.ofScope scope) path (ofStack (text :: below) output bounded) =
      substitute scope path room [] output text >>= fun output =>
        run (.ofScope scope) path
          (ofStack below output (Nat.le_of_succ_le bounded)) := by
  induction room using Nat.strongRecOn generalizing text below output with
  | ind room nested =>
  induction measured : text.length using Nat.strongRecOn generalizing
    text below output with
  | ind length shorter =>
      have search : Cut.ofText text = Cut.search [].reverse text := rfl
      rw [run_eq_step _ _ (List.cons_ne_nil _ _), substitute_eq_resume]
      simp only [step, ofStack, ← search]
      have less : ∀ {rest}, (Cut.ofText text).rest? = some rest →
          rest.length < length := fun found =>
        measured ▸ Cut.rest?_search_length found
      cases cut : Cut.ofText text with
      | literal =>
          simp only [resume, List.nil_append, bind_assoc, pure_bind]
          rfl
      | dollar front rest =>
          simp only [resume, bind_assoc, pure_bind]
          apply bind_congr
          intro written
          exact shorter rest.length (less (by rw [cut]; rfl)) rest below written
            bounded enough rfl
      | reference front name rest =>
          cases room with
          | zero =>
              have full : ¬ (text :: below).length + 1 ≤ maxFragments := by
                omega
              simp only [full, dif_neg, not_false_eq_true, resume]
              rfl
          | succ room =>
              have fits : (text :: below).length + 1 ≤ maxFragments := by
                omega
              simp only [fits, dif_pos, resume, bind_assoc,
                Values.find?_ofScope]
              apply bind_congr
              intro written
              cases scope.find? name with
              | none => rfl
              | some value =>
                  simp only [Option.map_some, pure_bind, bind_assoc]
                  have inner := nested room (Nat.lt_succ_self _) value.toList
                    (rest :: below) written fits
                    (by simp only [List.length_cons] at *; omega)
                  refine Eq.trans inner ?_
                  apply bind_congr
                  intro expanded
                  exact shorter rest.length (less (by rw [cut]; rfl)) rest
                    below expanded bounded enough rfl

end Machine

/-! ## Success -/

namespace Substitutes

variable {scope : Scope} {text written : List Char} {nesting : Nat}

theorem nil_iff :
    Substitutes scope [] written nesting ↔ written = [] ∧ nesting = 0 := by
  constructor
  · intro substitutes
    cases substitutes
    exact ⟨rfl, rfl⟩
  · rintro ⟨rfl, rfl⟩
    exact .done

theorem dollar_iff :
    Substitutes scope ('$' :: '$' :: text) written nesting ↔
      ∃ rest, written = '$' :: rest ∧ Substitutes scope text rest nesting := by
  constructor
  · intro substitutes
    cases substitutes with
    | dollar rest => exact ⟨_, rfl, rest⟩
    | literal plain => cases plain
  · rintro ⟨rest, rfl, substitutes⟩
    exact .dollar substitutes

theorem reference_iff :
    Substitutes scope ('$' :: '\x7b' :: text) written nesting ↔
      ∃ value first depth second other,
        scope.find? (String.ofList (referenceName text)) = some value ∧
        Substitutes scope value.toList first depth ∧
        Substitutes scope (afterReference text) second other ∧
        written = first ++ second ∧ nesting = max (depth + 1) other := by
  constructor
  · intro substitutes
    cases substitutes with
    | reference bound inner rest =>
        exact ⟨_, _, _, _, _, bound, inner, rest, rfl, rfl⟩
    | literal plain => cases plain
  · rintro ⟨value, first, depth, second, other, bound, inner, rest, rfl, rfl⟩
    exact .reference bound inner rest

theorem literal_iff {character : Char}
    (plain : isMarked (character :: text) = false) :
    Substitutes scope (character :: text) written nesting ↔
      ∃ rest, written = character :: rest ∧
        Substitutes scope text rest nesting := by
  constructor
  · intro substitutes
    cases substitutes with
    | dollar => cases plain
    | reference => cases plain
    | literal _ rest => exact ⟨_, rfl, rest⟩
  · rintro ⟨rest, rfl, substitutes⟩
    exact .literal plain substitutes

end Substitutes

def Faithful (scope : Scope) (path : String) (room : Nat)
    (text : List Char) : Prop :=
  ∀ {front : List Char} {output result : String} {before after : Ledger},
    substitute scope path room front output text before = .ok result after ↔
      ∃ written nesting, Substitutes scope text written nesting ∧
        nesting ≤ room ∧
        result.toList = output.toList ++ (front ++ written) ∧
        before.Charged (Text.byteLength (front ++ written)) after

namespace Faithful

variable {scope : Scope} {path : String} {room : Nat} {text : List Char}

theorem nil : Faithful scope path room [] := by
  intro front output result before after
  rw [substitute, Run.append_eq_ok_iff]
  simp only [Substitutes.nil_iff]
  constructor
  · rintro ⟨stands, charged⟩
    exact ⟨[], 0, ⟨rfl, rfl⟩, Nat.zero_le _, by simpa using stands,
      by simpa using charged⟩
  · rintro ⟨_, _, ⟨rfl, rfl⟩, _, stands, charged⟩
    exact ⟨by simpa using stands, by simpa using charged⟩

theorem dollar (rest : Faithful scope path room text) :
    Faithful scope path room ('$' :: '$' :: text) := by
  intro front output result before after
  rw [substitute, Run.append_bind_eq_ok_iff]
  simp only [Faithful] at rest
  simp only [rest, Substitutes.dollar_iff]
  constructor
  · rintro ⟨between, first, written, nesting, substitutes, within, stands,
      second⟩
    refine ⟨'$' :: written, nesting, ⟨written, rfl, substitutes⟩, within,
      by simpa using stands, ?_⟩
    have both := Ledger.Charged.append_iff.mpr ⟨between, first, second⟩
    simpa using both
  · rintro ⟨_, nesting, ⟨written, rfl, substitutes⟩, within, stands, both⟩
    rw [List.append_cons] at both
    rcases Ledger.Charged.append_iff.mp both with ⟨between, first, second⟩
    exact ⟨between, first, written, nesting, substitutes, within,
      by simpa using stands, second⟩

theorem literal {character : Char}
    (plain : isMarked (character :: text) = false)
    (rest : Faithful scope path room text) :
    Faithful scope path room (character :: text) := by
  intro front output result before after
  rw [substitute_literal plain]
  simp only [Faithful] at rest
  simp only [rest, Substitutes.literal_iff plain]
  constructor
  · rintro ⟨written, nesting, substitutes, within, stands, charged⟩
    exact ⟨character :: written, nesting, ⟨written, rfl, substitutes⟩, within,
      by simpa using stands, by simpa using charged⟩
  · rintro ⟨_, nesting, ⟨written, rfl, substitutes⟩, within, stands, charged⟩
    exact ⟨written, nesting, substitutes, within, by simpa using stands,
      by simpa using charged⟩

theorem refused : Faithful scope path 0 ('$' :: '\x7b' :: text) := by
  intro front output result before after
  rw [substitute]
  constructor
  · intro refused
    cases refused
  · rintro ⟨written, nesting, substitutes, within, _⟩
    rcases Substitutes.reference_iff.mp substitutes with
      ⟨_, _, depth, _, other, _, _, _, _, rfl⟩
    omega

theorem reference
    (inner : ∀ value : String, Faithful scope path room value.toList)
    (rest : Faithful scope path (room + 1) (afterReference text)) :
    Faithful scope path (room + 1) ('$' :: '\x7b' :: text) := by
  intro front output result before after
  simp only [Faithful] at inner rest
  rw [substitute, Run.append_bind_eq_ok_iff]
  simp only [Substitutes.reference_iff]
  cases bound : scope.find? (String.ofList (referenceName text)) with
  | none => simp
  | some value =>
      simp only [Run.bind_eq_ok_iff, inner, rest]
      constructor
      · rintro ⟨between, first, expanded, middle,
          ⟨inside, depth, substituted, shallow, stood, second⟩,
          outside, other, substitutes, within, stands, third⟩
        refine ⟨inside ++ outside, max (depth + 1) other,
          ⟨value, inside, depth, outside, other, rfl, substituted,
            substitutes, rfl, rfl⟩,
          Nat.max_le.mpr ⟨Nat.succ_le_succ shallow, within⟩, ?_, ?_⟩
        · rw [stands, stood]
          simp
        · apply Ledger.Charged.append_iff.mpr
          exact ⟨between, first,
            Ledger.Charged.append_iff.mpr ⟨middle, second, third⟩⟩
      · rintro ⟨_, _, ⟨_, inside, depth, outside, other, same, substituted,
          substitutes, rfl, rfl⟩, within, stands, charged⟩
        cases same
        rcases Nat.max_le.mp within with ⟨shallow, within⟩
        rcases Ledger.Charged.append_iff.mp charged with
          ⟨between, first, charged⟩
        rcases Ledger.Charged.append_iff.mp charged with
          ⟨middle, second, third⟩
        refine ⟨between, first,
          String.ofList (output.toList ++ front ++ inside), middle,
          ⟨inside, depth, substituted, Nat.le_of_succ_le_succ shallow, ?_,
            second⟩,
          outside, other, substitutes, within, ?_, third⟩
        · simp
        · rw [stands]
          simp

end Faithful

/-- The induction is that of the recursion: on the room for nesting first, since
a value may be longer than the text that refers to it. -/
theorem faithful (scope : Scope) (path : String) (room : Nat)
    (text : List Char) : Faithful scope path room text := by
  induction room using Nat.strongRecOn generalizing text with
  | ind room nested =>
  induction measured : text.length using Nat.strongRecOn generalizing text with
  | ind length shorter =>
      rcases text_cases text with rfl | ⟨rest, rfl⟩ | ⟨rest, rfl⟩ |
        ⟨character, rest, rfl, plain⟩
      · exact Faithful.nil
      · apply Faithful.dollar
        refine shorter _ ?_ rest rfl
        simp only [List.length_cons] at measured
        omega
      · cases room with
        | zero => exact Faithful.refused
        | succ room =>
            have less := length_afterReference rest
            apply Faithful.reference
            · exact fun value =>
                nested room (Nat.lt_succ_self _) value.toList
            · refine shorter _ ?_ (afterReference rest) rfl
              simp only [List.length_cons] at measured
              omega
      · apply Faithful.literal plain
        exact shorter rest.length (by rw [← measured]; simp) rest rfl

/-- Expanding with a stack of fragments and substituting by recursion come to
the same, in what they fail with and in all that they leave behind. -/
theorem expand_eq_substitute (scope : Scope) (path text : String) :
    expand scope path text =
      substitute scope path 127 [] "" text.toList := by
  have substituted := Machine.run_fragment scope path 127 text.toList [] ""
    (Machine.start text.toList).bounded rfl
  simp only [Machine.run_empty, bind_pure] at substituted
  exact substituted

/-- A text expands to what it means if it means anything, nests references no
more than 127 deep and its meaning fits in the budget. All that fails, fails as
substitution does. -/
theorem expand_eq_ok_iff_substitutes (scope : Scope) (path text : String) :
    expand scope path text = substitute scope path 127 [] "" text.toList ∧
    ∀ (before : Ledger) (result : String) (after : Ledger),
      expand scope path text before = .ok result after ↔
        (∃ nesting, Substitutes scope text.toList result.toList nesting ∧
          nesting ≤ 127) ∧
        before.Charged result.utf8ByteSize after := by
  refine ⟨expand_eq_substitute scope path text, fun before result after => ?_⟩
  have bytes : Text.byteLength result.toList = result.utf8ByteSize := by
    rw [Text.byteLength_eq_utf8ByteSize, String.ofList_toList]
  rw [expand_eq_substitute]
  have faithful := @faithful scope path 127 text.toList [] "" result before
    after
  simp only [String.toList_empty, List.nil_append] at faithful
  rw [faithful, ← bytes]
  constructor
  · rintro ⟨written, nesting, substitutes, within, rfl, charged⟩
    exact ⟨⟨nesting, substitutes, within⟩, charged⟩
  · rintro ⟨⟨nesting, substitutes, within⟩, charged⟩
    exact ⟨_, nesting, substitutes, within, rfl, charged⟩

end PkgConfig.Expansion
