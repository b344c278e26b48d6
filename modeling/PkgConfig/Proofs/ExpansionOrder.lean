import PkgConfig.Proofs.FieldMeanings

namespace PkgConfig

/-! The order in which the fields of a file are expanded. It decides which of
several faults is met, but not whether there is one, and not what a package
without faults is or costs. -/

/-! ## Tables -/

namespace Table

variable {Key Value : Type} [Ord Key] [Std.TransOrd Key] [Std.LawfulEqOrd Key]

omit [Std.TransOrd Key] in
theorem lookupEntry_eq_some_iff {key : Key} {value : Value}
    {entries : List (Key × Value)} (ascending : Ascending entries) :
    lookupEntry key entries = some value ↔ (key, value) ∈ entries := by
  induction entries with
  | nil => simp [lookupEntry]
  | cons entry rest induction =>
      rcases entry with ⟨other, found⟩
      rcases List.pairwise_cons.mp ascending with ⟨above, climbing⟩
      rw [List.mem_cons, ← induction climbing, lookupEntry]
      by_cases same : key = other
      · subst same
        have behind : lookupEntry key rest ≠ some value := by
          intro later
          have less := above _ ((induction climbing).mp later)
          rw [Std.ReflOrd.compare_self] at less
          cases less
        simp [Std.ReflOrd.compare_self, behind, eq_comm]
      · have different : compare key other ≠ .eq := fun equal =>
          same (Std.LawfulEqOrd.eq_of_compare equal)
        split
        · contradiction
        · simp [same]

omit [Std.TransOrd Key] in
private theorem nodup_of_ascending {entries : List (Key × Value)}
    (ascending : Ascending entries) : entries.Nodup := by
  apply ascending.imp
  rintro entry _ less rfl
  rw [Std.ReflOrd.compare_self] at less
  cases less

private theorem eq_of_find?_eq {left right : Table Key Value}
    (same : ∀ key, left.find? key = right.find? key) : left = right := by
  rcases left with ⟨entries, ascending⟩
  rcases right with ⟨others, climbing⟩
  have members : ∀ entry, entry ∈ entries ↔ entry ∈ others := by
    rintro ⟨key, value⟩
    rw [← lookupEntry_eq_some_iff ascending, ← lookupEntry_eq_some_iff climbing]
    exact Eq.congr_left (same key)
  have arranged : entries.Perm others :=
    (List.perm_ext_iff_of_nodup (nodup_of_ascending ascending)
      (nodup_of_ascending climbing)).mpr members
  have equal : entries = others := by
    refine arranged.eq_of_pairwise ?_ ascending climbing
    intro first second _ _ less more
    rw [Std.OrientedCmp.gt_iff_lt.mpr less] at more
    cases more
  cases equal
  rfl

private theorem insert_comm (table : Table Key Value) {left right : Key}
    (different : left ≠ right) (first second : Value) :
    (table.insert left first).insert right second =
      (table.insert right second).insert left first := by
  apply eq_of_find?_eq
  intro key
  simp only [find?_insert]
  by_cases atLeft : compare key left = .eq
  · have apart : compare key right ≠ .eq := fun atRight =>
      different ((Std.LawfulEqOrd.eq_of_compare atLeft).symm.trans
        (Std.LawfulEqOrd.eq_of_compare atRight))
    rw [if_pos atLeft, if_neg apart, if_pos atLeft]
  · rw [if_neg atLeft, if_neg atLeft]

end Table

/-! ## Expansions -/

theorem Expansion.means_of_expand {scope : Scope} {path text result : String}
    {before after : Ledger}
    (expanded : expand scope path text before = .ok result after) :
    Means scope text.toList result.toList := by
  rw [expand_eq_substitute] at expanded
  rcases (faithful scope path 127 text.toList).mp expanded with
    ⟨written, nesting, substitutes, within, stands, _⟩
  rw [String.toList_empty, List.nil_append, List.nil_append] at stands
  rw [stands]
  exact ⟨nesting, substitutes, within⟩

private theorem expand_of_charged {scope : Scope} {path text result : String}
    {before after start finish : Ledger}
    (expanded : expand scope path text before = .ok result after)
    (charged : start.Charged result.utf8ByteSize finish) :
    expand scope path text start = .ok result finish := by
  have means := Expansion.means_of_expand expanded
  have bytes : Text.byteLength result.toList = result.utf8ByteSize := by
    rw [Text.byteLength_eq_utf8ByteSize, String.ofList_toList]
  have again := Expansion.expand_of_means means path (bytes ▸ charged)
  rwa [String.ofList_toList] at again

private theorem expand_swap {scope : Scope}
    {path left right first second : String} {before between after : Ledger}
    (earlier : expand scope path left before = .ok first between)
    (later : expand scope path right between = .ok second after) :
    ∃ other, expand scope path right before = .ok second other ∧
      expand scope path left other = .ok first after := by
  have charged := (expand_charged earlier).trans (expand_charged later)
  rw [Nat.add_comm] at charged
  rcases Ledger.Charged.add_iff.mp charged with ⟨other, start, finish⟩
  exact ⟨other, expand_of_charged later start,
    expand_of_charged earlier finish⟩

namespace Package

/-! ## Fields -/

private theorem expandFields_of_perm {scope : Scope} {path : String}
    {first second : List (Field × String)} (arranged : first.Perm second)
    (distinct : (first.map Prod.fst).Nodup)
    {fields result : Table Field String} {before after : Ledger}
    (expanded : expandFields scope path fields first before =
      .ok result after) :
    expandFields scope path fields second before = .ok result after := by
  induction arranged generalizing fields before with
  | nil => exact expanded
  | cons entry _ induction =>
      rw [expandFields, Run.bind_eq_ok_iff] at expanded ⊢
      rcases expanded with ⟨value, between, head, rest⟩
      exact ⟨value, between, head,
        induction (List.nodup_cons.mp distinct).2 rest⟩
  | swap left right rest =>
      have different : right.1 ≠ left.1 := fun same =>
        (List.nodup_cons.mp distinct).1 (same ▸ List.mem_cons_self ..)
      rw [expandFields, Run.bind_eq_ok_iff] at expanded
      rcases expanded with ⟨first, between, earlier, expanded⟩
      rw [expandFields, Run.bind_eq_ok_iff] at expanded
      rcases expanded with ⟨second, next, later, rest⟩
      rcases expand_swap earlier later with ⟨other, start, finish⟩
      rw [Table.insert_comm _ different] at rest
      rw [expandFields, Run.bind_eq_ok_iff]
      refine ⟨second, other, start, ?_⟩
      rw [expandFields, Run.bind_eq_ok_iff]
      exact ⟨first, next, finish, rest⟩
  | trans arranged _ earlier later =>
      exact later ((arranged.map _).nodup_iff.mp distinct)
        (earlier distinct expanded)

private theorem ofFields_of_perm {settings : Settings} {realname path : String}
    {bindings : Bindings} {first second : List (Field × String)}
    (arranged : first.Perm second) (distinct : (first.map Prod.fst).Nodup)
    {package : Package} {before after : Ledger}
    (made : ofFields settings realname path bindings first before =
      .ok package after) :
    ofFields settings realname path bindings second before =
      .ok package after := by
  rw [ofFields, Run.bind_eq_ok_iff] at made ⊢
  rcases made with ⟨placed, start, placing, made⟩
  refine ⟨placed, start, placing, ?_⟩
  rw [Run.bind_eq_ok_iff] at made ⊢
  rcases made with ⟨fields, finish, expanded, made⟩
  exact ⟨fields, finish, expandFields_of_perm arranged distinct expanded, made⟩

end Package

/-! ## Orders -/

def Settings.expandingIn (settings : Settings) (order : String → FieldOrder) :
    Settings :=
  { settings with expansionOrder := order }

private def FieldOrder.beginningWith (given : List Field) (once : given.Nodup) :
    FieldOrder where
  fields := given ++ Field.all.filter (· ∉ given)
  complete := by
    refine (List.perm_ext_iff_of_nodup ?_ Field.nodup_all).mpr fun field => ?_
    · refine List.nodup_append.mpr ⟨once, Field.nodup_all.filter _, ?_⟩
      rintro field listed _ absent rfl
      simp [listed] at absent
    · simp only [List.mem_append, List.mem_filter, Field.mem_all, true_and,
        iff_true, decide_eq_true_eq]
      exact em _

namespace Metadata

private theorem fieldsIn_perm (metadata : Metadata)
    (first second : FieldOrder) :
    (metadata.fieldsIn first).Perm (metadata.fieldsIn second) :=
  (first.complete.trans second.complete.symm).filterMap _

/-- The fields that a file gives can be gone through in every order. -/
theorem exists_fieldsIn_eq {metadata : Metadata} {given : List (Field × String)}
    (arranged : given.Perm metadata.fields.entries) :
    ∃ order, metadata.fieldsIn order = given := by
  have once : (given.map Prod.fst).Nodup := by
    rw [(arranged.map _).nodup_iff, List.Nodup, List.pairwise_map]
    refine metadata.fields.ascending.imp fun {entry other} less same => ?_
    rw [same, Std.ReflOrd.compare_self] at less
    cases less
  have found : ∀ {field value}, metadata.fields.find? field = some value ↔
      (field, value) ∈ given := by
    intro field value
    rw [arranged.mem_iff]
    exact Table.lookupEntry_eq_some_iff metadata.fields.ascending
  have front : ∀ entry ∈ given, ((metadata.fields.find? entry.1).map
      fun value => (entry.1, value)) = some entry := by
    intro entry listed
    rw [found.mpr listed]
    rfl
  have back : ∀ field ∈ Field.all.filter (· ∉ given.map Prod.fst),
      ((metadata.fields.find? field).map fun value => (field, value)) =
        none := by
    intro field absent
    rw [Option.map_eq_none_iff, Option.eq_none_iff_forall_ne_some]
    intro value present
    have listed := List.mem_map_of_mem (f := Prod.fst) (found.mp present)
    simp [listed] at absent
  refine ⟨.beginningWith _ once, ?_⟩
  rw [fieldsIn, FieldOrder.beginningWith, List.filterMap_append,
    List.filterMap_eq_nil_iff.mpr back, List.append_nil, List.filterMap_map]
  exact (List.filterMap_congr front).trans (List.filterMap_some)

end Metadata

private theorem Package.ofFields_expandingIn (settings : Settings)
    (order : String → FieldOrder) (realname path : String)
    (bindings : Bindings) (raw : List (Field × String)) :
    ofFields (settings.expandingIn order) realname path bindings raw =
      ofFields settings realname path bindings raw := rfl

/-- A file can be loaded with its fields expanded in one order if and only if it
can be loaded with another one, and then the package is the same and so is what
it costs. -/
theorem Package.ofSource_in_any_order (settings : Settings)
    (first second : String → FieldOrder) (realname path source : String)
    (package : Package) (before after : Ledger) :
    ofSource (settings.expandingIn first) realname path source before =
        .ok package after ↔
      ofSource (settings.expandingIn second) realname path source before =
        .ok package after := by
  have reordered : ∀ one other : String → FieldOrder,
      ofSource (settings.expandingIn one) realname path source before =
        .ok package after →
      ofSource (settings.expandingIn other) realname path source before =
        .ok package after := by
    intro one other made
    rcases ofSource_eq_ok_iff.mp made with ⟨metadata, parsed, complete, made⟩
    rw [ofFields_expandingIn] at made
    have remade := ofFields_of_perm (metadata.fieldsIn_perm _ (other path))
      (nodup_fieldsIn metadata _) made
    exact ofSource_eq_ok_iff.mpr ⟨metadata, parsed, complete, remade⟩
  exact ⟨reordered first second, reordered second first⟩

end PkgConfig
