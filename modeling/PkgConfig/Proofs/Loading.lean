import PkgConfig.Discovery
import PkgConfig.Proofs.FileGrammar
import PkgConfig.Proofs.Substitution

namespace PkgConfig

/-! Loading a package is put together from charges, notes and errors. What holds
of these and is kept by sequencing holds of loading. -/

/-! ## Errors -/

def Error.isLoading : Error → Bool
  | .outOfMemory | .duplicateVariable .. | .duplicateField ..
  | .missingField .. | .packageNotFound .. | .packageUnreadable ..
  | .undefinedVariable .. | .expansionTooDeep .. => true
  | .traversalTooDeep .. | .unmatchedQuote .. | .versionMismatch ..
  | .unexpectedOperator .. | .missingVersion .. | .unknownOption ..
  | .missingArgument .. | .unexpectedValue .. | .invalidDefinition ..
  | .noPackages => false

private theorem Metadata.isLoading_of_parse {source path : String}
    {error : Error}
    (failed : parse source path = .error error) : error.isLoading = true := by
  have assembled := assembled_foldlM path unrepeated_nil holds_empty
    (readEntries source.toList)
  rw [← parse, failed] at assembled
  generalize [] ++ readEntries source.toList = entries at assembled
  cases assembled with
  | repeated _ _ =>
      unfold Entry.duplicate
      split <;> rfl

/-! ## Parts -/

/-- The property holds of the parts of loading, and is kept by sequencing. -/
structure Run.Compositional (property : ∀ {α : Type}, Run α → Prop) :
    Prop where
  pure {α : Type} (value : α) : property (pure value : Run α)
  throw {α : Type} {error : Error} (loading : error.isLoading = true) :
    property (throw error : Run α)
  bind {α β : Type} {first : Run α} {second : α → Run β}
    (earlier : property first) (later : ∀ value, property (second value)) :
    property (first >>= second)
  note (event : Event) : property (Run.note event)
  charge (bytes : Nat) : property (Run.charge bytes)

namespace Run.Compositional

variable {property : ∀ {α : Type}, Run α → Prop}
  (parts : Compositional property)

include parts

/-! ## Expansion -/

theorem append (output : String) (text : List Char) :
    property (Run.append output text) := by
  cases text with
  | nil => exact parts.pure output
  | cons character rest =>
      exact parts.bind (parts.charge _) fun _ => parts.pure _

theorem substitute (scope : Scope) (path : String) (room : Nat)
    (front : List Char) (output : String) (text : List Char) :
    property (Expansion.substitute scope path room front output text) := by
  induction room using Nat.strongRecOn generalizing front output text with
  | ind room nested =>
  induction measured : text.length using Nat.strongRecOn generalizing
    front output text with
  | ind length shorter =>
      rcases Expansion.text_cases text with rfl | ⟨rest, rfl⟩ | ⟨rest, rfl⟩ |
        ⟨character, rest, rfl, plain⟩
      · rw [Expansion.substitute]
        exact parts.append _ _
      · rw [Expansion.substitute]
        refine parts.bind (parts.append _ _) fun output => ?_
        refine shorter _ ?_ [] output rest rfl
        simp only [List.length_cons] at measured
        omega
      · have less := Expansion.length_afterReference rest
        rw [Expansion.substitute.eq_def]
        cases room with
        | zero => exact parts.throw rfl
        | succ room =>
            refine parts.bind (parts.append _ _) fun output => ?_
            dsimp only
            split
            · exact parts.throw rfl
            · apply parts.bind
              · exact nested room (Nat.lt_succ_self _) [] output _
              · intro output
                refine shorter _ ?_ [] output _ rfl
                simp only [List.length_cons] at measured
                omega
      · rw [Expansion.substitute_literal plain]
        exact shorter rest.length (by rw [← measured]; simp) _ output rest rfl

theorem expand (scope : Scope) (path text : String) :
    property (PkgConfig.expand scope path text) := by
  rw [Expansion.expand_eq_substitute]
  exact parts.substitute _ _ _ _ _ _

/-! ## Packages -/

variable (settings : Settings)

theorem placeVariables (realname path : String) (bindings : Bindings) :
    property (Package.placeVariables settings realname path bindings) := by
  unfold Package.placeVariables
  dsimp only
  split
  · split
    · exact parts.bind (parts.note _) fun _ => parts.pure _
    · exact parts.pure _
  · exact parts.pure _

theorem expandFields (scope : Scope) (path : String)
    (fields : Table Field String) (raw : List (Field × String)) :
    property (Package.expandFields scope path fields raw) := by
  induction raw generalizing fields with
  | nil => exact parts.pure fields
  | cons entry rest induction =>
      exact parts.bind (parts.expand _ _ _) fun expanded => induction _

theorem ofSource (realname path source : String) :
    property (Package.ofSource settings realname path source) := by
  unfold Package.ofSource
  split
  next failed => exact parts.throw (Metadata.isLoading_of_parse failed)
  · split
    · exact parts.throw rfl
    · apply parts.bind (parts.placeVariables settings _ _ _)
      intro bindings
      apply parts.bind (parts.expandFields _ _ _ _)
      intro fields
      exact parts.bind (parts.note _) fun _ => parts.pure _

theorem read? (name path : String) :
    property (Package.read? settings name path) := by
  unfold Package.read?
  split
  · exact parts.pure _
  · exact parts.throw rfl
  · exact parts.bind (parts.charge _) fun _ => parts.pure _

theorem locateAmong? (token : String) (candidates : List String) :
    property (Package.locateAmong? settings token candidates) := by
  induction candidates with
  | nil => exact parts.pure _
  | cons candidate rest induction =>
      apply parts.bind (parts.note _)
      intro _
      apply parts.bind (parts.read? settings _ _)
      intro source
      cases source with
      | some source => exact parts.pure _
      | none => exact induction

theorem locateByName? (token : String) :
    property (Package.locateByName? settings token) := by
  unfold Package.locateByName?
  dsimp only
  split
  · exact parts.pure _
  · exact parts.locateAmong? settings token _

theorem locate? (token : String) :
    property (Package.locate? settings token) := by
  unfold Package.locate?
  split
  · apply parts.bind (parts.note _)
    intro _
    apply parts.bind (parts.read? settings _ _)
    intro source
    cases source with
    | some source => exact parts.pure _
    | none => exact parts.locateByName? settings token
  · exact parts.locateByName? settings token

theorem find (token : String) : property (Package.find settings token) := by
  apply parts.bind (parts.locate? settings token)
  intro located
  cases located with
  | some located => exact parts.ofSource settings _ _ _
  | none => exact parts.throw rfl

end Run.Compositional

end PkgConfig
