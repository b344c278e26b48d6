import PkgConfig.Proofs.LoadingCharges

namespace PkgConfig

/-! What the fields of a file mean. A complete file whose fields all mean
something is loaded as soon as the budget is enough for what they mean, and its
package has just that in its fields. -/

/-! ## Meanings -/

namespace Expansion

/-- What a text expands to, given the budget for it. -/
def Means (scope : Scope) (text written : List Char) : Prop :=
  ∃ nesting, Substitutes scope text written nesting ∧ nesting ≤ 127

theorem expand_of_means {scope : Scope} {text : String} {written : List Char}
    (means : Means scope text.toList written) (path : String)
    {before after : Ledger}
    (charged : before.Charged (Text.byteLength written) after) :
    expand scope path text before = .ok (String.ofList written) after := by
  rcases means with ⟨nesting, substitutes, within⟩
  rw [expand_eq_substitute]
  apply (faithful scope path 127 text.toList).mpr
  exact ⟨written, nesting, substitutes, within, by simp, by simpa using charged⟩

theorem Substitutes.unique {scope : Scope} {text first second : List Char}
    {depth nesting : Nat} (substitutes : Substitutes scope text first depth)
    (other : Substitutes scope text second nesting) : first = second := by
  induction substitutes generalizing second nesting with
  | done => exact (nil_iff.mp other).1.symm
  | dollar _ induction =>
      rcases dollar_iff.mp other with ⟨_, rfl, rest⟩
      rw [induction rest]
  | reference bound _ _ innermost behind =>
      rcases reference_iff.mp other with
        ⟨_, _, _, _, _, bound', inner, rest, rfl, _⟩
      cases bound.symm.trans bound'
      rw [innermost inner, behind rest]
  | literal plain _ induction =>
      rcases (literal_iff plain).mp other with ⟨_, rfl, rest⟩
      rw [induction rest]

theorem Means.unique {scope : Scope} {text first second : List Char}
    (means : Means scope text first) (means' : Means scope text second) :
    first = second := by
  rcases means with ⟨_, substitutes, _⟩
  rcases means' with ⟨_, substitutes', _⟩
  exact substitutes.unique substitutes'

private theorem isMarked_of_ne_dollar {character : Char}
    (other : character ≠ '$')
    (rest : List Char) : isMarked (character :: rest) = false := by
  unfold isMarked
  split
  next same => exact absurd (List.cons.inj same).1 other
  next same => exact absurd (List.cons.inj same).1 other
  · rfl

theorem Substitutes.append_plain {scope : Scope}
    {front text written : List Char} {nesting : Nat}
    (plain : ∀ character ∈ front, character ≠ '$')
    (rest : Substitutes scope text written nesting) :
    Substitutes scope (front ++ text) (front ++ written) nesting := by
  induction front with
  | nil => exact rest
  | cons character front induction =>
      rcases List.forall_mem_cons.mp plain with ⟨other, plain⟩
      exact .literal (isMarked_of_ne_dollar other _) (induction plain)

theorem Substitutes.of_append_plain {scope : Scope}
    {front text written : List Char} {nesting : Nat}
    (plain : ∀ character ∈ front, character ≠ '$')
    (whole : Substitutes scope (front ++ text) written nesting) :
    ∃ rest, Substitutes scope text rest nesting := by
  induction front generalizing written with
  | nil => exact ⟨written, whole⟩
  | cons character front induction =>
      rcases List.forall_mem_cons.mp plain with ⟨other, plain⟩
      rcases (literal_iff (isMarked_of_ne_dollar other _)).mp whole with
        ⟨_, _, rest⟩
      exact induction plain rest

theorem Substitutes.plain (scope : Scope) {text : List Char}
    (plain : ∀ character ∈ text, character ≠ '$') :
    Substitutes scope text text 0 := by
  have nothing : Substitutes scope [] [] 0 := .done
  have copied := append_plain plain nothing
  rw [List.append_nil] at copied
  exact copied

def IsLiteral (text : List Char) : Prop :=
  ∀ rest, rest <:+ text → isMarked rest = false

private theorem IsLiteral.of_cons {character : Char} {text : List Char}
    (literal : IsLiteral (character :: text)) : IsLiteral text :=
  fun rest suffix => literal rest (suffix.trans (List.suffix_cons _ _))

theorem IsLiteral.of_plain {text : List Char}
    (plain : ∀ character ∈ text, character ≠ '$') : IsLiteral text := by
  intro rest suffix
  cases rest with
  | nil => rfl
  | cons character rest =>
      exact isMarked_of_ne_dollar
        (plain _ (suffix.subset List.mem_cons_self)) rest

theorem IsLiteral.substitutes (scope : Scope) {text : List Char}
    (literal : IsLiteral text) : Substitutes scope text text 0 := by
  induction text with
  | nil => exact .done
  | cons character rest induction =>
      exact .literal (literal _ List.suffix_rfl) (induction literal.of_cons)

theorem referenceName_eq {name : List Char}
    (unclosed : ∀ character ∈ name, character ≠ '\x7d') (rest : List Char) :
    referenceName (name ++ '\x7d' :: rest) = name ∧
      afterReference (name ++ '\x7d' :: rest) = rest := by
  have passed : ∀ character ∈ name, (character != '\x7d') = true :=
    fun character member => bne_iff_ne.mpr (unclosed character member)
  rw [referenceName, afterReference, List.takeWhile_append_of_pos passed,
    List.dropWhile_append_of_pos passed]
  simp

theorem Substitutes.named {scope : Scope} {name value : String}
    {text first second : List Char} {depth nesting : Nat}
    (unclosed : ∀ character ∈ name.toList, character ≠ '\x7d')
    (bound : scope.find? name = some value)
    (inner : Substitutes scope value.toList first depth)
    (rest : Substitutes scope text second nesting) :
    Substitutes scope ('$' :: '\x7b' :: (name.toList ++ '\x7d' :: text))
      (first ++ second) (max (depth + 1) nesting) := by
  rcases referenceName_eq unclosed text with ⟨read, left⟩
  refine .reference ?_ inner ?_
  · rw [read, String.ofList_toList]
    exact bound
  · rw [left]
    exact rest

theorem Substitutes.of_named {scope : Scope} {name value : String}
    {text written : List Char} {nesting : Nat}
    (unclosed : ∀ character ∈ name.toList, character ≠ '\x7d')
    (bound : scope.find? name = some value)
    (whole : Substitutes scope
      ('$' :: '\x7b' :: (name.toList ++ '\x7d' :: text)) written nesting) :
    ∃ first depth, Substitutes scope value.toList first depth := by
  rcases reference_iff.mp whole with
    ⟨_, first, depth, _, _, bound', inner, _, _, _⟩
  rw [(referenceName_eq unclosed text).1, String.ofList_toList, bound]
    at bound'
  cases bound'
  exact ⟨first, depth, inner⟩

end Expansion

/-! ## Loading -/

namespace Package

def placedBindings (settings : Settings) (path : String)
    (bindings : Bindings) : Bindings :=
  let placed := bindings.insert "pcfiledir"
    (Text.encode (Location.directory path))
  if settings.isOn .definePrefix then
    match relocatedPrefix? path with
    | some directory => placed.insert "prefix" (Text.encode directory)
    | none => placed
  else placed

def fieldScope (settings : Settings) (path : String) (metadata : Metadata) :
    Scope :=
  ⟨settings.globals, placedBindings settings path metadata.bindings⟩

private theorem placeVariables_eq (settings : Settings) (realname path : String)
    (bindings : Bindings) (before : Ledger) :
    ∃ between, placeVariables settings realname path bindings before =
        .ok (placedBindings settings path bindings) between ∧
      between.budget = before.budget := by
  unfold placeVariables placedBindings
  by_cases defines : settings.isOn .definePrefix = true
  · cases moved : relocatedPrefix? path with
    | none => exact ⟨before, by simp [defines], rfl⟩
    | some directory =>
        refine ⟨before.note (.relocated realname directory), ?_, rfl⟩
        simp only [defines, if_true]
        rfl
  · exact ⟨before, by simp [defines], rfl⟩

variable {meaning : Field → List Char}

def insertMeanings (meaning : Field → List Char)
    (fields : Table Field String) (raw : List (Field × String)) :
    Table Field String :=
  raw.foldl (fun fields entry =>
    fields.insert entry.1 (String.ofList (meaning entry.1))) fields

private theorem find?_insertMeanings (fields : Table Field String)
    (raw : List (Field × String)) (field : Field) :
    (insertMeanings meaning fields raw).find? field =
      if field ∈ raw.map Prod.fst then some (String.ofList (meaning field))
      else fields.find? field := by
  induction raw generalizing fields with
  | nil => rfl
  | cons entry rest induction =>
      rw [insertMeanings, List.foldl_cons, ← insertMeanings, induction,
        Table.find?_insert, List.map_cons]
      simp only [Std.LawfulEqOrd.compare_eq_iff_eq, List.mem_cons]
      by_cases later : field ∈ rest.map Prod.fst
      · rw [if_pos later, if_pos (.inr later)]
      · by_cases same : field = entry.1
        · rw [if_neg later, if_pos same, if_pos (.inl same), same]
        · rw [if_neg later, if_neg same, if_neg (not_or.mpr ⟨same, later⟩)]

private theorem expandFields_of_means {scope : Scope} {path : String}
    {raw : List (Field × String)}
    (means : ∀ entry ∈ raw,
      Expansion.Means scope entry.2.toList (meaning entry.1))
    (fields : Table Field String) {before after : Ledger}
    (charged : before.Charged
      (raw.map fun entry => Text.byteLength (meaning entry.1)).sum after) :
    expandFields scope path fields raw before =
      .ok (insertMeanings meaning fields raw) after := by
  induction raw generalizing fields before with
  | nil =>
      rw [Ledger.Charged.nothing_iff.mp charged]
      rfl
  | cons entry rest induction =>
      rcases List.forall_mem_cons.mp means with ⟨first, means⟩
      rw [List.map_cons, List.sum_cons] at charged
      rcases Ledger.Charged.add_iff.mp charged with
        ⟨between, earlier, later⟩
      rw [expandFields, Run.bind_eq_ok_iff]
      exact ⟨_, between, Expansion.expand_of_means first path earlier,
        induction means _ later⟩

private theorem mem_fieldsIn {metadata : Metadata} {order : FieldOrder}
    {entry : Field × String} :
    entry ∈ metadata.fieldsIn order ↔
      metadata.fields.find? entry.1 = some entry.2 := by
  rw [Metadata.fieldsIn, List.mem_filterMap]
  constructor
  · rintro ⟨field, _, given⟩
    rcases Option.map_eq_some_iff.mp given with ⟨value, found, rfl⟩
    exact found
  · intro found
    refine ⟨entry.1, order.complete.mem_iff.mpr (Field.mem_all _), ?_⟩
    rw [found]
    rfl

def meaningBytes (settings : Settings) (path : String) (metadata : Metadata)
    (meaning : Field → List Char) : Nat :=
  ((metadata.fieldsIn (settings.expansionOrder path)).map fun entry =>
    Text.byteLength (meaning entry.1)).sum

def ofMeaning (settings : Settings) (realname path : String)
    (metadata : Metadata) (meaning : Field → List Char) : Package where
  realname := realname
  path := path
  bindings := placedBindings settings path metadata.bindings
  fields := insertMeanings meaning .empty
    (metadata.fieldsIn (settings.expansionOrder path))
  marks := .none

theorem field_ofMeaning (settings : Settings) (realname path : String)
    (metadata : Metadata) (meaning : Field → List Char) (field : Field) :
    (ofMeaning settings realname path metadata meaning).field field =
      if metadata.fields.contains field then String.ofList (meaning field)
      else "" := by
  have given : field ∈ (metadata.fieldsIn
      (settings.expansionOrder path)).map Prod.fst ↔
        metadata.fields.contains field = true := by
    rw [Table.contains, Option.isSome_iff_exists, List.mem_map]
    constructor
    · rintro ⟨⟨_, value⟩, member, rfl⟩
      exact ⟨value, mem_fieldsIn.mp member⟩
    · rintro ⟨value, found⟩
      exact ⟨(field, value), mem_fieldsIn.mpr found, rfl⟩
  simp only [Package.field, ofMeaning, find?_insertMeanings, given]
  split
  · rfl
  · rfl

/-- A complete file whose fields mean something is loaded as its package. -/
theorem ofSource_eq_of_means {settings : Settings} {path source : String}
    {metadata : Metadata} (parsed : Metadata.parse source path = .ok metadata)
    (complete : metadata.missingField? = none)
    (means : ∀ field raw, metadata.fields.find? field = some raw →
      Expansion.Means (fieldScope settings path metadata) raw.toList
        (meaning field))
    (realname : String) {before : Ledger}
    (enough : before.used + meaningBytes settings path metadata meaning ≤
      before.budget.capacity) :
    ∃ after,
      ofSource settings realname path source before =
        .ok (ofMeaning settings realname path metadata meaning) after ∧
      after.used = before.used +
        meaningBytes settings path metadata meaning ∧
      after.budget.capacity = before.budget.capacity := by
  let raw := metadata.fieldsIn (settings.expansionOrder path)
  rcases placeVariables_eq settings realname path metadata.bindings before with
    ⟨between, placed, budget⟩
  have same : between.used = before.used := congrArg Budget.used budget
  have fits : between.used + meaningBytes settings path metadata meaning ≤
      between.budget.capacity := by
    rw [same, budget]
    exact enough
  rcases Ledger.Charged.exists_of_fits fits with ⟨after, charged⟩
  have expanded : expandFields (fieldScope settings path metadata) path .empty
      raw between = .ok (insertMeanings meaning .empty raw) after :=
    expandFields_of_means
      (fun _ member => means _ _ (mem_fieldsIn.mp member)) .empty charged
  refine ⟨after.note (.loaded realname path), ?_, ?_, ?_⟩
  · simp only [ofSource, parsed, complete, ofFields, bind, EStateM.bind, placed]
    rw [← fieldScope, expanded]
    rfl
  · rw [← same]
    exact charged.used
  · rw [← budget]
    exact charged.capacity

theorem ofSource_of_means {settings : Settings} {path source : String}
    {metadata : Metadata} (parsed : Metadata.parse source path = .ok metadata)
    (complete : metadata.missingField? = none)
    (means : ∀ field raw, metadata.fields.find? field = some raw →
      Expansion.Means (fieldScope settings path metadata) raw.toList
        (meaning field))
    (realname : String) {before : Ledger}
    (enough : before.used + meaningBytes settings path metadata meaning ≤
      before.budget.capacity) :
    ∃ package after,
      ofSource settings realname path source before = .ok package after ∧
      (∀ field raw, metadata.fields.find? field = some raw →
        package.field field = String.ofList (meaning field)) ∧
      after.used = before.used +
        meaningBytes settings path metadata meaning ∧
      after.budget.capacity = before.budget.capacity := by
  rcases ofSource_eq_of_means parsed complete means realname enough with
    ⟨after, made, used, capacity⟩
  refine ⟨_, after, made, ?_, used, capacity⟩
  intro field raw given
  rw [field_ofMeaning, if_pos (by simp [Table.contains, given])]

end Package

end PkgConfig
