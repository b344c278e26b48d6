import PkgConfig.Proofs.Reads

namespace PkgConfig

/-! The requirement graph. Its nodes are names of packages; its edges come from
the requirement lists of the packages in a catalogue. -/

/-! ## Lists -/

/-- The tokens of a list that name packages, which are neither operators nor
versions. The list may begin with the version that an operator waits for. -/
def packageTokens (awaiting : Bool) : List String → List String
  | [] => []
  | token :: rest =>
      if awaiting then packageTokens false rest
      else if (Comparator.ofToken? token).isSome then packageTokens true rest
      else token :: packageTokens false rest

example : packageTokens false ["a", ">=", "1", "b"] = ["a", "b"] := by decide

def namesIn (tokens : List String) : List String :=
  (packageTokens false tokens).map Location.realname

/-- The names that the arguments of the user ask for. They are read as one
list. -/
def namesInArguments (arguments : List String) : List String :=
  namesIn (arguments.flatMap Text.tokens)

section Tokens

variable {position : Position} {token : String} {tokens : List String}

theorem packageTokens_version {comparator : Comparator}
    (pending : position.pending = some comparator) :
    packageTokens position.pending.isSome (token :: tokens) =
      packageTokens false tokens := by
  simp [packageTokens, pending]

theorem packageTokens_operator {comparator : Comparator}
    (settled : position.pending = none)
    (operator : Comparator.ofToken? token = some comparator) :
    packageTokens position.pending.isSome (token :: tokens) =
      packageTokens true tokens := by
  simp [packageTokens, settled, operator]

theorem packageTokens_name (settled : position.pending = none)
    (names : Comparator.ofToken? token = none) :
    packageTokens position.pending.isSome (token :: tokens) =
      token :: packageTokens false tokens := by
  simp [packageTokens, settled, names]

end Tokens

/-! ## Edges -/

def Package.requires (package : Package) (field : Field) : List String :=
  namesIn (Text.tokens (package.field field))

@[simp] theorem Package.requires_mark (package : Package) (marks : Marks)
    (field : Field) : (package.mark marks).requires field =
      package.requires field := rfl

namespace Field

def requirements : List Field := [.requires, .requiresPrivate]

def interface : List Field := [.requires]

theorem requires_mem_requirements : .requires ∈ requirements :=
  List.mem_cons_self ..

theorem requiresPrivate_mem_requirements : .requiresPrivate ∈ requirements :=
  List.mem_cons_of_mem _ (List.mem_cons_self ..)

theorem requires_mem_interface : .requires ∈ interface :=
  List.mem_cons_self ..

end Field

def Catalogue.Requires (catalogue : Catalogue) (fields : List Field)
    (name required : String) : Prop :=
  ∃ package ∈ catalogue.packages, package.realname = name ∧
    ∃ field ∈ fields, required ∈ package.requires field

def Catalogue.outline (catalogue : Catalogue) : List (String × List String) :=
  catalogue.packages.map fun package => (package.realname,
    Field.requirements.flatMap package.requires)

theorem Catalogue.realnames_eq_outline (catalogue : Catalogue) :
    catalogue.realnames = catalogue.outline.map Prod.fst := by
  rw [outline, List.map_map]
  rfl

theorem Catalogue.requires_iff_outline {catalogue : Catalogue}
    {name next : String} :
    catalogue.Requires Field.requirements name next ↔
      ∃ required, (name, required) ∈ catalogue.outline ∧ next ∈ required := by
  constructor
  · rintro ⟨package, listed, rfl, required⟩
    exact ⟨_, List.mem_map_of_mem listed, List.mem_flatMap.mpr required⟩
  · rintro ⟨_, outlined, required⟩
    rcases List.mem_map.mp outlined with ⟨package, listed, same⟩
    cases same
    exact ⟨package, listed, rfl, List.mem_flatMap.mp required⟩

/-! ## Chains -/

/-- A chain of requirements with its newest name in front, back to a name that
was asked for. -/
inductive Chain (requires : String → String → Prop) (asked : List String) :
    List String → Prop
  | asked (member : name ∈ asked) : Chain requires asked [name]
  | required (chain : Chain requires asked (name :: names))
      (edge : requires name next) :
      Chain requires asked (next :: name :: names)

def Reaches (requires : String → String → Prop) (asked : List String)
    (name : String) : Prop :=
  ∃ names, Chain requires asked (name :: names)

section Chains

variable {requires : String → String → Prop} {asked : List String}

theorem Reaches.of_asked {name : String} (member : name ∈ asked) :
    Reaches requires asked name :=
  ⟨[], .asked member⟩

theorem Reaches.required {name next : String}
    (reached : Reaches requires asked name) (edge : requires name next) :
    Reaches requires asked next := by
  rcases reached with ⟨names, chain⟩
  exact ⟨name :: names, chain.required edge⟩

theorem Reaches.closed {property : String → Prop}
    (start : ∀ name ∈ asked, property name)
    (step : ∀ name next, property name → requires name next → property next)
    {name : String} (reached : Reaches requires asked name) :
    property name := by
  rcases reached with ⟨names, chain⟩
  generalize listed : name :: names = list at chain
  induction chain generalizing name names with
  | asked member =>
      cases listed
      exact start _ member
  | required chain edge induction =>
      cases listed
      exact step _ _ (induction _ rfl) edge

end Chains

end PkgConfig
