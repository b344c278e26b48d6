import PkgConfig.Proofs.CircularReferences
import PkgConfig.Proofs.ConfiguredDirectories
import PkgConfig.Proofs.Evaluation

namespace PkgConfig

/-! The value of a variable, asked for by its name. Asking expands the value
itself, so what is nested in it may be nested one deeper than under a reference
to the variable. -/

namespace Expansion

private theorem substitute_eq_ok_iff {scope : Scope} {path : String}
    {room : Nat} {text : List Char} {result : String} {before after : Ledger} :
    substitute scope path room [] "" text before = .ok result after ↔
      (∃ nesting, Substitutes scope text result.toList nesting ∧
        nesting ≤ room) ∧ before.Charged result.utf8ByteSize after := by
  have bytes : Text.byteLength result.toList = result.utf8ByteSize := by
    rw [Text.byteLength_eq_utf8ByteSize, String.ofList_toList]
  have faithful := @faithful scope path room text [] "" result before after
  simp only [String.toList_empty, List.nil_append] at faithful
  rw [faithful, ← bytes]
  constructor
  · rintro ⟨written, nesting, substitutes, within, rfl, charged⟩
    exact ⟨⟨nesting, substitutes, within⟩, charged⟩
  · rintro ⟨⟨nesting, substitutes, within⟩, charged⟩
    exact ⟨_, nesting, substitutes, within, rfl, charged⟩

section

variable {scope : Scope} {name value : String}
  (unclosed : ∀ character ∈ name.toList, character ≠ '\x7d')

private theorem toList_reference (name : String) :
    (reference name).toList =
      '$' :: '\x7b' :: (name.toList ++ '\x7d' :: []) := by
  simp [reference]

include unclosed

private theorem substitute_reference (bound : scope.find? name = some value)
    (path : String) (room : Nat) :
    substitute scope path (room + 1) [] "" (reference name).toList =
      substitute scope path room [] "" value.toList := by
  rcases referenceName_eq unclosed [] with ⟨read, left⟩
  have named : scope.find? (String.ofList
      (referenceName (name.toList ++ '\x7d' :: []))) = some value := by
    rw [read, String.ofList_toList]
    exact bound
  rw [toList_reference, substitute_bound scope path [] "" _ room named, left]
  have nothing : ∀ output, Run.append output [] = pure output := fun _ => rfl
  have ended : ∀ output,
      substitute scope path (room + 1) [] output [] = pure output := by
    intro output
    rw [substitute, nothing]
  simp only [nothing, ended, pure_bind, bind_pure]

private theorem exists_value_of_reference {written : List Char} {nesting : Nat}
    (substitutes : Substitutes scope (reference name).toList written nesting) :
    ∃ value, scope.find? name = some value := by
  rcases (refersTo_reference unclosed).exists_value substitutes with
    ⟨value, _, _, bound, _⟩
  exact ⟨value, bound⟩

end

end Expansion

private theorem Run.map_some_eq_ok_iff {run : Run α} {result : Option α}
    {before after : Ledger} :
    (some <$> run) before = .ok result after ↔
      ∃ value, result = some value ∧ run before = .ok value after := by
  rw [← bind_pure_comp, bind_eq_ok_iff]
  constructor
  · rintro ⟨value, between, ran, finished⟩
    cases finished
    exact ⟨value, rfl, ran⟩
  · rintro ⟨value, rfl, ran⟩
    exact ⟨value, after, ran, rfl⟩

namespace Package

def scope (settings : Settings) (package : Package) : Scope :=
  ⟨settings.globals, package.bindings⟩

section

variable {settings : Settings} {package : Package} {name value : String}
  {before after : Ledger}

private theorem value?_of_bound (bound : (package.scope settings).find? name =
    some value) :
    package.value? settings name =
      some <$> expand (package.scope settings) package.path value := by
  unfold value?
  rw [scope] at bound ⊢
  simp only [bound, bind_pure_comp]

private theorem value?_of_unbound
    (unbound : (package.scope settings).find? name = none) :
    package.value? settings name = pure none := by
  unfold value?
  rw [scope] at unbound
  simp only [unbound]

private theorem scope_find?_eq_none_iff :
    (package.scope settings).find? name = none ↔
      settings.globals.find? name = none ∧
        package.bindings.find? name = none := by
  unfold scope Scope.find?
  cases settings.globals.find? name with
  | none => simp
  | some value => simp

/-- Asking for a variable comes to referring to it, with one level more to
nest. -/
theorem value?_eq_some_iff
    (unclosed : ∀ character ∈ name.toList, character ≠ '\x7d') :
    package.value? settings name before = .ok (some value) after ↔
      (∃ nesting, Expansion.Substitutes (package.scope settings)
          (Expansion.reference name).toList value.toList nesting ∧
        nesting ≤ 128) ∧
        before.Charged value.utf8ByteSize after := by
  cases found : (package.scope settings).find? name with
  | none =>
      rw [value?_of_unbound found]
      constructor
      · intro ended
        cases ended
      · rintro ⟨⟨nesting, substitutes, _⟩, _⟩
        rcases Expansion.exists_value_of_reference unclosed substitutes with
          ⟨value, bound⟩
        cases found.symm.trans bound
  | some text =>
      rw [value?_of_bound found, Run.map_some_eq_ok_iff,
        Expansion.expand_eq_substitute,
        ← Expansion.substitute_reference unclosed found]
      simp only [Option.some.injEq, exists_eq_left']
      exact Expansion.substitute_eq_ok_iff

private theorem value?_eq_none_iff :
    package.value? settings name before = .ok none after ↔
      after = before ∧ settings.globals.find? name = none ∧
        package.bindings.find? name = none := by
  rw [← scope_find?_eq_none_iff]
  cases found : (package.scope settings).find? name with
  | none =>
      rw [value?_of_unbound found, Run.pure_apply]
      simp [eq_comm]
  | some value =>
      rw [value?_of_bound found, Run.map_some_eq_ok_iff]
      simp

end

/-- Whatever a reference to a variable expands to, the package gives as the
value of the variable, at the same cost. It gives a value exactly if the
reference means that value and nests no more than 128 deep, and none exactly if
the variable is bound nowhere. -/
theorem value?_agrees (settings : Settings) (package : Package) {name : String}
    (unclosed : ∀ character ∈ name.toList, character ≠ '\x7d') :
    (∀ path before value after,
      expand (package.scope settings) path (Expansion.reference name) before =
          .ok value after →
        package.value? settings name before = .ok (some value) after) ∧
      (∀ before value after,
        package.value? settings name before = .ok (some value) after ↔
          (∃ nesting, Expansion.Substitutes (package.scope settings)
              (Expansion.reference name).toList value.toList nesting ∧
            nesting ≤ 128) ∧
            before.Charged value.utf8ByteSize after) ∧
      ∀ before after,
        package.value? settings name before = .ok none after ↔
          after = before ∧ settings.globals.find? name = none ∧
            package.bindings.find? name = none := by
  refine ⟨?_, fun before value after => value?_eq_some_iff unclosed,
    fun before after => value?_eq_none_iff⟩
  intro path before value after expanded
  rw [Expansion.expand_eq_substitute] at expanded
  rcases Expansion.substitute_eq_ok_iff.mp expanded with
    ⟨⟨nesting, substitutes, within⟩, charged⟩
  exact (value?_eq_some_iff unclosed).mpr
    ⟨⟨nesting, substitutes, by omega⟩, charged⟩

/-! A variable whose value refers to another one, which the user has defined
too. -/

namespace OverriddenBase

def package : Package where
  realname := "x"
  path := "/p/x.pc"
  bindings := .ofList [("base", "/usr"), ("dir", "$\x7bbase\x7d/lib")]
  fields := .empty
  marks := .none

def settings : Settings :=
  FileTable.settings { Choices.none with definitions := [("base", "/opt")] } []

theorem value?_agrees_nested :
    (∀ character ∈ "dir".toList, character ≠ '\x7d') ∧
    (∀ character ∈ "lib".toList, character ≠ '\x7d') ∧
    ∃ after,
      expand (package.scope settings) "/p/x.pc" (Expansion.reference "dir")
        (.fresh 8) = .ok "/opt/lib" after ∧
      package.value? settings "dir" (.fresh 8) = .ok (some "/opt/lib") after ∧
      package.value? settings "lib" (.fresh 8) = .ok none (.fresh 8) := by
  have unclosed : ∀ character ∈ "dir".toList, character ≠ '\x7d' := by simp
  have other : ∀ character ∈ "lib".toList, character ≠ '\x7d' := by simp
  have base : Expansion.Substitutes (package.scope settings)
      ('$' :: '\x7b' :: ("base".toList ++ '\x7d' :: "/lib".toList))
      ("/opt".toList ++ "/lib".toList) 1 :=
    .named (by simp) (by cbv) (.plain _ (by simp)) (.plain _ (by simp))
  have dir : Expansion.Substitutes (package.scope settings)
      (Expansion.reference "dir").toList
      ("/opt".toList ++ "/lib".toList ++ []) 2 := by
    have value : '$' :: '\x7b' :: ("base".toList ++ '\x7d' :: "/lib".toList) =
        "$\x7bbase\x7d/lib".toList := by
      simp
    rw [value] at base
    rw [Expansion.toList_reference]
    exact .named unclosed (by cbv) base .done
  have room : (Ledger.fresh 8).used +
      Text.byteLength ("/opt".toList ++ "/lib".toList ++ []) ≤
        (Ledger.fresh 8).budget.capacity := by
    decide
  rcases Ledger.Charged.exists_of_fits room with ⟨after, charged⟩
  have expanded := Expansion.expand_of_means ⟨2, dir, by decide⟩ "/p/x.pc"
    charged
  have written : String.ofList ("/opt".toList ++ "/lib".toList ++ []) =
      "/opt/lib" := by
    decide
  rw [written] at expanded
  refine ⟨unclosed, other, after, expanded,
    (value?_agrees settings package unclosed).1 _ _ _ _ expanded, ?_⟩
  apply ((value?_agrees settings package other).2.2 _ _).mpr
  exact ⟨rfl, by cbv, by cbv⟩

end OverriddenBase

end Package

end PkgConfig
