import PkgConfig.Bindings
import PkgConfig.Run
import PkgConfig.StackWeight
import Std.Data.HashMap

namespace PkgConfig.Expansion

/-! References to variables are replaced by their values. Pending text waits on
a stack of fragments, the current one on top; a reference puts its value on the
text after it. A value is expanded on its own, so no reference ever spans the
end of a fragment. -/

def maxFragments : Nat := 128

/-! ## Looking for a dollar sign -/

/-- A fragment cut at the first place that is not literal text. -/
inductive Cut where
  | literal
  | dollar (before rest : List Char)
  | reference (before : List Char) (name : String) (rest : List Char)

def cutName (name : String) : List Char → String × List Char
  | [] => (name, [])
  | '\x7d' :: rest => (name, rest)
  | character :: rest => cutName (name.push character) rest

def Cut.search (passed : List Char) : List Char → Cut
  | '$' :: '\x7b' :: rest =>
      let (name, rest) := cutName "" rest
      .reference passed.reverse name rest
  | '$' :: '$' :: rest => .dollar ('$' :: passed).reverse rest
  | character :: rest => Cut.search (character :: passed) rest
  | [] => .literal

@[inline] def Cut.ofText (text : List Char) : Cut := Cut.search [] text

private theorem length_cutName (name : String) (text : List Char) :
    (cutName name text).2.length ≤ text.length := by
  fun_induction cutName name text with
  | case1 => simp
  | case2 => simp
  | case3 _ _ _ _ induction => exact Nat.le_succ_of_le induction

def Cut.rest? : Cut → Option (List Char)
  | .literal => none
  | .dollar _ rest => some rest
  | .reference _ _ rest => some rest

theorem Cut.rest?_search_length {passed text rest : List Char}
    (found : (Cut.search passed text).rest? = some rest) :
    rest.length < text.length := by
  fun_induction Cut.search passed text with
  | case1 passed tail name remaining cut =>
      have shorter : remaining.length ≤ tail.length :=
        (congrArg (·.2.length) cut) ▸ length_cutName "" tail
      simp only [Cut.rest?, Option.some.injEq] at found
      subst found
      simp only [List.length_cons]
      omega
  | case2 passed tail =>
      simp only [Cut.rest?, Option.some.injEq] at found
      subst found
      simp only [List.length_cons]
      omega
  | case3 passed character tail _ _ induction =>
      have := induction found
      simp only [List.length_cons]
      omega
  | case4 => simp [Cut.rest?] at found

/-! ## The stack -/

structure Values where
  byName : Std.HashMap String (Thunk (List Char))

namespace Values

def empty : Values := ⟨∅⟩

def find? (values : Values) (name : String) : Option (Thunk (List Char)) :=
  values.byName[name]?

def insert (values : Values) (name value : String) : Values where
  byName := values.byName.insert name ⟨fun _ => value.toList⟩

def insertAll (values : Values) (bindings : Bindings) : Values :=
  bindings.entries.foldr (fun (name, value) values => values.insert name value)
    values

def ofScope (scope : Scope) : Values :=
  (empty.insertAll scope.locals).insertAll scope.globals

theorem find?_insert (values : Values) (name wanted value : String) :
    (values.insert name value).find? wanted =
      if name = wanted then some ⟨fun _ => value.toList⟩
      else values.find? wanted := by
  simp [insert, find?, Std.HashMap.getElem?_insert]

private theorem find?_foldr_insert (values : Values)
    (entries : List (String × String)) (wanted : String) :
    (entries.foldr (fun (name, value) values => values.insert name value)
        values).find? wanted =
      ((lookupEntry wanted entries).map fun value => ⟨fun _ => value.toList⟩).or
        (values.find? wanted) := by
  induction entries with
  | nil => rfl
  | cons entry rest induction =>
      rcases entry with ⟨name, value⟩
      simp only [List.foldr_cons, find?_insert, induction, lookupEntry]
      by_cases same : name = wanted
      · subst same
        simp [Std.ReflOrd.compare_self]
      · have different : compare wanted name ≠ .eq := fun equal =>
          same (Std.LawfulEqOrd.eq_of_compare equal).symm
        rw [if_neg same]
        split
        · contradiction
        · rfl

theorem find?_ofScope (scope : Scope) (wanted : String) :
    (ofScope scope).find? wanted =
      (scope.find? wanted).map fun value => ⟨fun _ => value.toList⟩ := by
  simp only [ofScope, insertAll, find?_foldr_insert, Scope.find?, Table.find?]
  cases lookupEntry wanted scope.globals.entries <;>
    cases lookupEntry wanted scope.locals.entries <;>
    simp [empty, find?]

end Values

structure Machine where
  fragments : List (List Char)
  height : Nat
  output : String
  height_eq : height = fragments.length
  bounded : height ≤ maxFragments

namespace Machine

def start (text : List Char) : Machine where
  fragments := [text]
  height := 1
  output := ""
  height_eq := rfl
  bounded := by decide

/-- One reference, one doubled dollar sign, or the literal end of a fragment.
The depth of a reference is checked before the text in front of it is written,
its binding afterwards. -/
@[inline] def step (values : Values) (path : String) : Machine → Run Machine
  | ⟨[], height, output, counted, bounded⟩ =>
      pure ⟨[], height, output, counted, bounded⟩
  | ⟨text :: below, height, output, counted, bounded⟩ =>
      match Cut.ofText text with
      | .literal => do
          let output ← Run.append output text
          return {
            fragments := below
            height := height - 1
            output
            height_eq := by simp [counted]
            bounded := Nat.le_trans (Nat.sub_le ..) bounded }
      | .dollar before rest => do
          let output ← Run.append output before
          return {
            fragments := rest :: below
            height
            output
            height_eq := counted
            bounded }
      | .reference before name rest =>
          if room : height + 1 ≤ maxFragments then do
            let output ← Run.append output before
            match values.find? name with
            | none => throw (.undefinedVariable name path)
            | some value => return {
                fragments := value.get :: rest :: below
                height := height + 1
                output
                height_eq := congrArg (· + 1) counted
                bounded := room }
          else
            throw (.expansionTooDeep path)

/-- An entry counts one more than its length, so that an empty fragment is not
free either. -/
def weight (machine : Machine) : StackWeight maxFragments :=
  .ofStack (fun fragment => fragment.length + 1) maxFragments machine.fragments

theorem step_less {values : Values} {path : String} {machine next : Machine}
    {before after : Ledger} (pending : machine.fragments ≠ [])
    (stepped : machine.step values path before = .ok next after) :
    StackWeight.Less maxFragments next.weight machine.weight := by
  rcases machine with ⟨fragments, height, output, counted, bounded⟩
  cases fragments with
  | nil => exact absurd rfl pending
  | cons text below =>
      have room : below.length < maxFragments :=
        Nat.lt_of_lt_of_le (by simp [counted]) bounded
      have shorter : ∀ {rest}, (Cut.ofText text).rest? = some rest →
          rest.length < text.length := Cut.rest?_search_length
      cases cut : Cut.ofText text with
      | literal =>
          simp only [step, cut, Run.bind_eq_ok_iff] at stepped
          rcases stepped with ⟨written, _, _, finished⟩
          cases finished
          exact StackWeight.ofStack_pop_less room (Nat.succ_pos _)
      | dollar front rest =>
          simp only [step, cut, Run.bind_eq_ok_iff] at stepped
          rcases stepped with ⟨written, _, _, finished⟩
          cases finished
          exact StackWeight.ofStack_replace_less [] room
            (Nat.succ_lt_succ (shorter (by rw [cut]; rfl)))
      | reference front name rest =>
          simp only [step, cut] at stepped
          split at stepped
          · rcases Run.bind_eq_ok_iff.mp stepped with ⟨written, _, _, finished⟩
            cases bound : values.find? name with
            | none =>
                simp only [bound] at finished
                cases finished
            | some value =>
                simp only [bound] at finished
                cases finished
                exact StackWeight.ofStack_replace_less [value.get] room
                  (Nat.succ_lt_succ (shorter (by rw [cut]; rfl)))
          · cases stepped

def run (values : Values) (path : String) (machine : Machine) : Run String :=
  fun ledger =>
    if _pending : machine.fragments = [] then
      .ok machine.output ledger
    else
      match _stepped : machine.step values path ledger with
      | .ok next after => run values path next after
      | .error error after => .error error after
termination_by machine.weight
decreasing_by exact step_less ‹_› ‹_›

end Machine

end Expansion

def expand (scope : Scope) (path : String) (text : String) : Run String :=
  (Expansion.Machine.start text.toList).run (.ofScope scope) path

end PkgConfig
