namespace PkgConfig

/-! Finite tables listed in the order of their keys. A key occurs once, so a
table is determined by its look-ups and the listing needs no sorting. -/

universe u v

/-! ## Entry lists -/

section Entries

variable {Key : Type u} {Value : Type v} [Ord Key]

abbrev Ascending (entries : List (Key × Value)) : Prop :=
  entries.Pairwise fun left right => compare left.1 right.1 = .lt

def lookupEntry (key : Key) : List (Key × Value) → Option Value
  | [] => none
  | (other, value) :: rest =>
      match compare key other with
      | .eq => some value
      | _ => lookupEntry key rest

def insertEntry (key : Key) (value : Value) :
    List (Key × Value) → List (Key × Value)
  | [] => [(key, value)]
  | (other, old) :: rest =>
      match compare key other with
      | .lt => (key, value) :: (other, old) :: rest
      | .eq => (key, value) :: rest
      | .gt => (other, old) :: insertEntry key value rest

private theorem mem_insertEntry {key : Key} {value : Value}
    {entry : Key × Value} {entries : List (Key × Value)}
    (member : entry ∈ insertEntry key value entries) :
    entry = (key, value) ∨ entry ∈ entries := by
  induction entries with
  | nil => simpa [insertEntry] using member
  | cons head rest induction =>
      rcases head with ⟨other, old⟩
      simp only [insertEntry] at member
      split at member
      · simpa using member
      · rcases List.mem_cons.mp member with equal | member
        · exact .inl equal
        · exact .inr (List.mem_cons_of_mem _ member)
      · rcases List.mem_cons.mp member with equal | member
        · exact .inr (equal ▸ List.mem_cons_self)
        · rcases induction member with equal | member
          · exact .inl equal
          · exact .inr (List.mem_cons_of_mem _ member)

private theorem ascending_insertEntry [Std.TransOrd Key] (key : Key)
    (value : Value)
    {entries : List (Key × Value)} (ascending : Ascending entries) :
    Ascending (insertEntry key value entries) := by
  induction entries with
  | nil => simp [insertEntry, Ascending]
  | cons head rest induction =>
      rcases head with ⟨other, old⟩
      have above := (List.pairwise_cons.mp ascending).1
      have tail := (List.pairwise_cons.mp ascending).2
      simp only [insertEntry]
      split
      next smaller =>
        refine List.pairwise_cons.mpr ⟨?_, ascending⟩
        intro entry member
        rcases List.mem_cons.mp member with rfl | member
        · exact smaller
        · exact Std.TransCmp.lt_trans smaller (above entry member)
      next same =>
        refine List.pairwise_cons.mpr ⟨?_, tail⟩
        intro entry member
        exact Std.TransCmp.lt_of_eq_of_lt same (above entry member)
      next larger =>
        refine List.pairwise_cons.mpr ⟨?_, induction tail⟩
        intro entry member
        rcases mem_insertEntry member with rfl | member
        · exact Std.OrientedCmp.gt_iff_lt.mp larger
        · exact above entry member

private theorem lookupEntry_insertEntry [Std.TransOrd Key] (key wanted : Key)
    (value : Value) (entries : List (Key × Value)) :
    lookupEntry wanted (insertEntry key value entries) =
      if compare wanted key = .eq then some value
      else lookupEntry wanted entries := by
  induction entries with
  | nil => simp only [insertEntry, lookupEntry]; split <;> simp_all
  | cons head rest induction =>
      rcases head with ⟨other, old⟩
      simp only [insertEntry]
      split
      next smaller =>
        simp only [lookupEntry]
        split
        · simp_all
        · simp_all
      next same =>
        have agree : compare wanted key = compare wanted other :=
          Std.TransCmp.congr_right same
        simp only [lookupEntry, agree]
        split <;> simp_all
      next larger =>
        simp only [lookupEntry, induction]
        split
        next found =>
          have different : compare wanted key ≠ .eq := by
            intro equal
            have : compare key other = .eq :=
              (Std.TransCmp.congr_left equal).symm.trans found
            simp_all
          simp [different]
        · rfl

end Entries

/-! ## Tables -/

structure Table (Key : Type u) (Value : Type v) [Ord Key] where
  entries : List (Key × Value)
  ascending : Ascending entries

namespace Table

variable {Key : Type u} {Value : Type v} [Ord Key]

def empty : Table Key Value where
  entries := []
  ascending := .nil

instance : Inhabited (Table Key Value) := ⟨empty⟩

def find? (table : Table Key Value) (key : Key) : Option Value :=
  lookupEntry key table.entries

def contains (table : Table Key Value) (key : Key) : Bool :=
  (table.find? key).isSome

def keys (table : Table Key Value) : List Key :=
  table.entries.map Prod.fst

def size (table : Table Key Value) : Nat := table.entries.length

def insert [Std.TransOrd Key] (table : Table Key Value) (key : Key)
    (value : Value) : Table Key Value where
  entries := insertEntry key value table.entries
  ascending := ascending_insertEntry key value table.ascending

def insertNew? [Std.TransOrd Key] (table : Table Key Value) (key : Key)
    (value : Value) : Option (Table Key Value) :=
  if table.contains key then none else some (table.insert key value)

def ofList [Std.TransOrd Key] (pairs : List (Key × Value)) : Table Key Value :=
  pairs.foldl (fun table (key, value) => table.insert key value) empty

example : (ofList [("b", 1), ("a", 2), ("b", 3)]).entries =
    [("a", 2), ("b", 3)] := by decide

@[simp] theorem find?_empty (key : Key) :
    (empty : Table Key Value).find? key = none := rfl

theorem find?_insert [Std.TransOrd Key] (table : Table Key Value)
    (key wanted : Key) (value : Value) :
    (table.insert key value).find? wanted =
      if compare wanted key = .eq then some value else table.find? wanted :=
  lookupEntry_insertEntry key wanted value table.entries

end Table

end PkgConfig
