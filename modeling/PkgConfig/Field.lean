namespace PkgConfig

inductive Field where
  | name
  | description
  | url
  | version
  | requires
  | requiresPrivate
  | conflicts
  | libs
  | libsPrivate
  | cflags
  | cflagsPrivate
  deriving DecidableEq, Repr

namespace Field

def all : List Field :=
  [.name, .description, .url, .version, .requires, .requiresPrivate,
    .conflicts, .libs, .libsPrivate, .cflags, .cflagsPrivate]

def required : List Field := [.name, .version, .description]

def text : Field → String
  | .name => "Name"
  | .description => "Description"
  | .url => "URL"
  | .version => "Version"
  | .requires => "Requires"
  | .requiresPrivate => "Requires.private"
  | .conflicts => "Conflicts"
  | .libs => "Libs"
  | .libsPrivate => "Libs.private"
  | .cflags => "Cflags"
  | .cflagsPrivate => "Cflags.private"

/-- Field names are case sensitive. -/
def ofText? (name : String) : Option Field :=
  all.find? fun field => field.text == name

example : ofText? "Libs.private" = some .libsPrivate := by decide

example : ofText? "libs" = none := by decide

theorem mem_all (field : Field) : field ∈ all := by
  cases field <;> decide

theorem ofText?_text (field : Field) : ofText? field.text = some field := by
  cases field <;> decide

theorem text_inj {left right : Field} : left.text = right.text ↔ left = right := by
  constructor
  · intro same
    have known := ofText?_text left
    rw [same, ofText?_text] at known
    exact (Option.some.inj known).symm
  · rintro rfl
    rfl

/-! Tables of fields follow the listing order. -/

instance : Ord Field where
  compare left right := compare left.ctorIdx right.ctorIdx

instance : Std.TransOrd Field where
  eq_swap := Std.OrientedOrd.eq_swap (α := Nat)
  isLE_trans := Std.TransOrd.isLE_trans (α := Nat)

instance : Std.LawfulEqOrd Field where
  compare_self := Std.ReflOrd.compare_self (α := Nat)
  eq_of_compare {left right} equal := by
    have index := Std.LawfulEqOrd.eq_of_compare (α := Nat) equal
    cases left <;> cases right <;> trivial

end Field

/-- An order in which the fields of a file are gone through. -/
structure FieldOrder where
  fields : List Field
  complete : fields.Perm Field.all

def FieldOrder.listing : FieldOrder where
  fields := Field.all
  complete := .refl _

end PkgConfig
