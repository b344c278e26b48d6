import Mathlib.Algebra.BigOperators.Group.List.Basic
import Mathlib.Algebra.GroupWithZero.Nat
import PkgConfig.Proofs.Reads
import PkgConfig.Proofs.Substitution

namespace PkgConfig

/-! What loading a package costs: the file that it is loaded from, and its
expanded fields. Files that are looked for and absent cost nothing, and neither
does the builtin package. -/

/-! ## Fields -/

theorem expand_charged {scope : Scope} {path text result : String}
    {before after : Ledger}
    (expanded : expand scope path text before = .ok result after) :
    before.Charged result.utf8ByteSize after := by
  rw [Expansion.expand_eq_substitute] at expanded
  rcases (Expansion.faithful scope path 127 text.toList).mp expanded with
    ⟨written, _, _, _, stands, charged⟩
  rw [← List.append_assoc, String.toList_empty, List.nil_append] at stands
  rw [← stands, Text.byteLength_eq_utf8ByteSize, String.ofList_toList] at charged
  exact charged

def Package.fieldBytes (package : Package) : Nat :=
  (Field.all.map fun field => (package.field field).utf8ByteSize).sum

namespace Field

theorem nodup_all : all.Nodup := by decide

private theorem sum_all_update {left right : Field → Nat} {field : Field}
    (others : ∀ other, other ≠ field → left other = right other) :
    (all.map left).sum + right field = (all.map right).sum + left field := by
  have rest : (all.erase field).map left = (all.erase field).map right := by
    apply List.map_congr_left
    intro other member
    exact others other ((nodup_all.mem_erase_iff).mp member).1
  have whole := List.sum_map_erase left (mem_all field)
  have whole' := List.sum_map_erase right (mem_all field)
  rw [rest] at whole
  omega

end Field

namespace Package

private def tableBytes (fields : Table Field String) : Nat :=
  (Field.all.map fun field => ((fields.find? field).getD "").utf8ByteSize).sum

private theorem tableBytes_insert {fields : Table Field String} {field : Field}
    (absent : fields.find? field = none) (value : String) :
    tableBytes (fields.insert field value) =
      tableBytes fields + value.utf8ByteSize := by
  have others : ∀ other, other ≠ field →
      (((fields.insert field value).find? other).getD "").utf8ByteSize =
        ((fields.find? other).getD "").utf8ByteSize := by
    intro other different
    have apart : compare other field ≠ .eq := fun same =>
      different (Std.LawfulEqOrd.eq_of_compare same)
    rw [Table.find?_insert, if_neg apart]
  simpa [Table.find?_insert, absent, tableBytes] using
    Field.sum_all_update others

private theorem expandFields_used {scope : Scope} {path : String}
    {fields result : Table Field String} {raw : List (Field × String)}
    {before after : Ledger} (distinct : (raw.map Prod.fst).Nodup)
    (absent : ∀ field ∈ raw.map Prod.fst, fields.find? field = none)
    (expanded : expandFields scope path fields raw before = .ok result after) :
    after.used + tableBytes fields = before.used + tableBytes result := by
  induction raw generalizing fields before with
  | nil =>
      cases expanded
      rfl
  | cons entry rest induction =>
      rcases entry with ⟨field, value⟩
      rcases List.nodup_cons.mp distinct with ⟨new, distinct⟩
      rcases List.forall_mem_cons.mp absent with ⟨first, absent⟩
      rcases Run.bind_eq_ok_iff.mp expanded with
        ⟨text, between, expanding, expanded⟩
      have later := induction distinct (by
        intro other member
        have apart : compare other field ≠ .eq := by
          intro same
          rw [Std.LawfulEqOrd.eq_of_compare same] at member
          exact new member
        rw [Table.find?_insert, if_neg apart]
        exact absent other member) expanded
      rw [tableBytes_insert first, (expand_charged expanding).used] at later
      omega

private theorem map_fst_fieldsIn (metadata : Metadata) (order : FieldOrder) :
    (metadata.fieldsIn order).map Prod.fst =
      order.fields.filter metadata.fields.contains := by
  rw [Metadata.fieldsIn, List.map_filterMap, ← List.filterMap_eq_filter]
  congr
  funext field
  cases found : metadata.fields.find? field <;>
    simp [Table.contains, Option.guard, found]

theorem nodup_fieldsIn (metadata : Metadata) (order : FieldOrder) :
    ((metadata.fieldsIn order).map Prod.fst).Nodup := by
  rw [map_fst_fieldsIn]
  exact (order.complete.nodup_iff.mpr Field.nodup_all).filter _

private theorem placeVariables_used {settings : Settings}
    {realname path : String}
    {bindings result : Bindings} {before after : Ledger}
    (placed : placeVariables settings realname path bindings before =
      .ok result after) : after.used = before.used := by
  unfold placeVariables at placed
  split at placed
  · cases moved : relocatedPrefix? path with
    | none =>
        simp only [moved] at placed
        cases placed
        rfl
    | some directory =>
        simp only [moved] at placed
        rcases Run.bind_eq_ok_iff.mp placed with ⟨_, _, noted, finished⟩
        cases noted
        cases finished
        rfl
  · cases placed
    rfl

theorem ofSource_used {settings : Settings} {realname path source : String}
    {package : Package} {before after : Ledger}
    (made : ofSource settings realname path source before =
      .ok package after) :
    package.realname = realname ∧ package.path = path ∧ package.marks = .none ∧
      after.used = before.used + package.fieldBytes := by
  rcases ofSource_eq_ok_iff.mp made with ⟨metadata, _, _, made⟩
  rcases Run.bind_eq_ok_iff.mp made with ⟨bindings, _, placed, made⟩
  rcases Run.bind_eq_ok_iff.mp made with ⟨fields, _, expanded, made⟩
  rcases Run.bind_eq_ok_iff.mp made with ⟨_, _, noted, finished⟩
  cases noted
  cases finished
  have used := expandFields_used (nodup_fieldsIn metadata _) (fun _ _ => rfl)
    expanded
  have nothing : tableBytes .empty = 0 := by decide
  rw [placeVariables_used placed, nothing] at used
  exact ⟨rfl, rfl, rfl, used⟩

/-! ## Files -/

inductive Origin where
  | builtin
  | file (text : String)
  deriving DecidableEq, Repr

namespace Origin

def source : Origin → String
  | .builtin => Builtin.source
  | .file text => text

def bytes : Origin → Nat
  | .builtin => 0
  | .file text => text.utf8ByteSize

/-- The origin is what can be found for a name at a path. -/
def StandsAt (settings : Settings) (realname path : String) : Origin → Prop
  | .builtin => realname = Builtin.name ∧
      path = (settings.searchPath.candidates Builtin.name).headD
        (Builtin.name ++ ".pc")
  | .file text => settings.loader.load path = .contents text

end Origin

private def Finds (settings : Settings) (token : String) (before : Ledger) :
    Option Located → Ledger → Prop
  | none, after => after.used = before.used
  | some located, after => ∃ origin : Origin,
      origin.StandsAt settings (Location.realname token) located.path ∧
        located.source = origin.source ∧
        after.used = before.used + origin.bytes

section

variable {settings : Settings} {token name path : String}
  {before after : Ledger}

private theorem read?_eq_ok {found : Option String}
    (read : read? settings name path before = .ok found after) :
    match found with
    | none => after.used = before.used
    | some text => settings.loader.load path = .contents text ∧
        after.used = before.used + text.utf8ByteSize := by
  rw [read?] at read
  cases loaded : settings.loader.load path with
  | absent =>
      simp only [loaded] at read
      cases read
      rfl
  | failed cause => simp only [loaded, Run.throw_apply, reduceCtorEq] at read
  | contents text =>
      simp only [loaded] at read
      rcases Run.bind_eq_ok_iff.mp read with ⟨_, _, charged, finished⟩
      cases finished
      exact ⟨rfl, (Run.charge_eq_ok_iff.mp charged).used⟩

private theorem locateAmong?_eq_ok {candidates : List String}
    {found : Option Located}
    (located : locateAmong? settings token candidates before =
      .ok found after) : Finds settings token before found after := by
  induction candidates generalizing before with
  | nil =>
      cases located
      rfl
  | cons candidate rest induction =>
      rcases Run.bind_eq_ok_iff.mp located with ⟨_, _, noted, located⟩
      cases noted
      rcases Run.bind_eq_ok_iff.mp located with ⟨source, _, read, located⟩
      have read := read?_eq_ok read
      cases source with
      | some text =>
          cases located
          exact ⟨.file text, read.1, rfl, read.2⟩
      | none =>
          have later := induction located
          unfold Finds at later ⊢
          rw [read] at later
          exact later

private theorem locateByName?_eq_ok {found : Option Located}
    (located : locateByName? settings token before = .ok found after) :
    Finds settings token before found after := by
  unfold locateByName? at located
  split at located
  next builtin =>
    cases located
    rw [builtin]
    exact ⟨.builtin, ⟨by decide, rfl⟩, rfl, rfl⟩
  · exact locateAmong?_eq_ok located

private theorem locate?_eq_ok {found : Option Located}
    (located : locate? settings token before = .ok found after) :
    Finds settings token before found after := by
  unfold locate? at located
  split at located
  · rcases Run.bind_eq_ok_iff.mp located with ⟨_, _, noted, located⟩
    cases noted
    rcases Run.bind_eq_ok_iff.mp located with ⟨source, _, read, located⟩
    have read := read?_eq_ok read
    cases source with
    | some text =>
        cases located
        exact ⟨.file text, read.1, rfl, read.2⟩
    | none =>
        have later := locateByName?_eq_ok located
        unfold Finds at later ⊢
        rw [read] at later
        exact later
  · exact locateByName?_eq_ok located

end

/-! ## Packages -/

def unmarked (package : Package) : Package := { package with marks := .none }

structure ComesFrom (settings : Settings) (package : Package)
    (origin : Origin) : Prop where
  stands : origin.StandsAt settings package.realname package.path
  made : ∃ before after, ofSource settings package.realname package.path
    origin.source before = .ok package.unmarked after

theorem ComesFrom.of_unmarked {settings : Settings} {package : Package}
    {origin : Origin} (comes : package.unmarked.ComesFrom settings origin) :
    package.ComesFrom settings origin :=
  ⟨comes.stands, comes.made⟩

theorem find_used {settings : Settings} {token : String} {package : Package}
    {before after : Ledger}
    (found : find settings token before = .ok package after) :
    ∃ origin, package.ComesFrom settings origin ∧
      package.unmarked = package ∧
      after.used = before.used + origin.bytes + package.fieldBytes := by
  rcases Run.bind_eq_ok_iff.mp found with ⟨located?, between, located, made⟩
  have finds := locate?_eq_ok located
  cases located? with
  | none => cases made
  | some located =>
      rcases finds with ⟨origin, stands, source, used⟩
      rcases ofSource_used made with ⟨named, placed, unmarks, spent⟩
      have same : package.unmarked = package := by
        rw [unmarked, ← unmarks]
      refine ⟨origin, ⟨?_, between, after, ?_⟩, same, ?_⟩
      · rw [named, placed]
        exact stands
      · rw [same, named, placed, ← source]
        exact made
      · rw [spent, used]

end Package

end PkgConfig
