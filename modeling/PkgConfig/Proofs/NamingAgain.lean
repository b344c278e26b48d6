import PkgConfig.Proofs.NamedPackages

namespace PkgConfig

/-! Arguments that are given again. All that they name is in the catalogue by
then, with the marks of what the user names, and their constraints are known to
hold. So nothing is loaded, marked or refused. -/

/-! ## Names -/

namespace Catalogue

private theorem find?_eq_of_realnames {left right : Catalogue}
    (same : left.realnames = right.realnames) (name : String) :
    left.find? name = right.find? name := by
  have named : ∀ catalogue : Catalogue, catalogue.find? name =
      catalogue.realnames.zipIdx.foldl (fun found entry =>
        if entry.1 = name then some entry.2 else found) none := by
    intro catalogue
    rw [find?, realnames, List.zipIdx_map, List.foldl_map]
    rfl
  rw [named, named, same]

private theorem Grows.find?_eq_some {before after : Catalogue} {name : String}
    {id : Nat} (grown : before.Grows after)
    (found : before.find? name = some id) : after.find? name = some id := by
  induction grown with
  | refl => exact found
  | @insert between package _ absent _ induction =>
      have other : package.realname ≠ name := by
        rintro rfl
        cases absent.symm.trans induction
      rw [find?_insert, if_neg other]
      exact induction
  | expose _ induction =>
      rw [find?_eq_of_realnames (realnames_mark _ _ _)]
      exact induction
  | mergeMarks _ _ induction =>
      rw [find?_eq_of_realnames (realnames_mergeMarks _ _ _)]
      exact induction

private theorem find?_mergeMarks {catalogue : Catalogue} {name : String}
    {id : Nat} (found : catalogue.find? name = some id) (marks : Marks) :
    (catalogue.mergeMarks id marks).find? name = some id := by
  rw [find?_eq_of_realnames (realnames_mergeMarks _ _ _)]
  exact found

theorem Grows.enrol {before : Catalogue} {package : Package}
    (absent : before.find? package.realname = none)
    (unmarked : package.marks = .none) (marks : Marks) :
    before.Grows (before.enrol package marks) :=
  .mergeMarks (.insert .refl absent unmarked) (by simp)

private theorem find?_enrol (catalogue : Catalogue) (package : Package)
    (marks : Marks) :
    (catalogue.enrol package marks).find? package.realname =
      some catalogue.size := by
  apply find?_mergeMarks
  rw [find?_insert, if_pos rfl]

/-! ## Marks -/

def Bears (catalogue : Catalogue) (id : Nat) (marks : Marks) : Prop :=
  ∃ package, catalogue.package? id = some package ∧
    package.marks.includes marks = true

namespace Bears

variable {catalogue : Catalogue} {id : Nat} {marks : Marks}

theorem later {after : Catalogue} (bears : catalogue.Bears id marks)
    (extended : after.Extends catalogue) : after.Bears id marks := by
  rcases bears with ⟨package, held, included⟩
  rcases extended id package held with ⟨more, kept⟩
  exact ⟨_, kept, Marks.includes_trans (Marks.union_includes_left _ _) included⟩

theorem mergeMarks (known : id < catalogue.size) (marks : Marks) :
    (catalogue.mergeMarks id marks).Bears id marks := by
  rcases lt_size_iff.mp known with ⟨package, held⟩
  refine ⟨package.mark marks, ?_, Marks.union_includes_right _ _⟩
  rw [package?_mergeMarks, if_pos rfl, held, Option.map_some]

theorem enrol (catalogue : Catalogue) (package : Package) (marks : Marks) :
    (catalogue.enrol package marks).Bears catalogue.size marks :=
  ⟨_, package?_enrol_size catalogue package marks,
    Marks.union_includes_right _ _⟩

private theorem lt_size (bears : catalogue.Bears id marks) :
    id < catalogue.size := by
  rcases bears with ⟨package, held, _⟩
  exact lt_size_iff.mpr ⟨package, held⟩

private theorem not_exposes (bears : catalogue.Bears id marks) :
    catalogue.exposes id marks = false := by
  rcases bears with ⟨package, held, included⟩
  simp only [Marks.includes, Bool.and_eq_true, Bool.or_eq_true,
    Bool.not_eq_true'] at included
  simp only [exposes, marksOf, held]
  rcases included.2 with hidden | exposed
  · simp [hidden]
  · simp [exposed]

private theorem mergeMarks_eq (bears : catalogue.Bears id marks) :
    catalogue.mergeMarks id marks = catalogue := by
  rcases bears with ⟨package, held, included⟩
  have absorbed : package.mark marks = package := by
    rcases package with ⟨_, _, _, _, ⟨direct, exposed⟩⟩
    rcases marks with ⟨names, exposes⟩
    cases direct <;> cases exposed <;> cases names <;> cases exposes <;>
      simp_all [Package.mark, Marks.union, Marks.includes]
  have packages : (catalogue.mark id marks).packages = catalogue.packages := by
    apply List.ext_getElem?
    intro place
    have marked := catalogue.package?_mark id place marks
    split at marked
    next same =>
      rw [← same, held, Option.map_some, absorbed, ← held] at marked
      rw [← same]
      exact marked
    · exact marked
  have listed : (marks.direct && !(catalogue.marksOf id).direct) = false := by
    simp only [Marks.includes, Bool.and_eq_true, Bool.or_eq_true,
      Bool.not_eq_true'] at included
    simp only [marksOf, held]
    rcases included.1 with unnamed | direct
    · simp [unnamed]
    · simp [direct]
  unfold Catalogue.mergeMarks
  simp only [listed, Bool.false_eq_true, if_false]
  rcases catalogue with ⟨all, direct⟩
  exact congrArg (Catalogue.mk · direct) packages

end Bears

end Catalogue

/-! ## Positions -/

def Position.Known (position : Position) (catalogue : Catalogue) : Prop :=
  ∀ id, position.last = some id → id < catalogue.size

namespace Position.Known

theorem start (catalogue : Catalogue) : Position.start.Known catalogue :=
  nofun

private theorem of_lt {id : Nat} {catalogue : Catalogue}
    (known : id < catalogue.size) (pending : Option Comparator) :
    (Position.mk (some id) pending).Known catalogue := by
  rintro _ ⟨⟩
  exact known

end Position.Known

/-! ## Readings -/

theorem Reads.grows {settings : Settings} {opened depth : Nat} {marks : Marks}
    {position final : Position} {tokens : List String}
    {before after : Catalogue}
    (reads : Reads settings opened depth marks position tokens before final
      after) : before.Grows after := by
  induction reads with
  | done => exact .refl
  | version _ _ _ rest => exact rest
  | operator _ _ _ _ rest => exact rest
  | known _ _ found _ _ rest =>
      exact .trans (.mergeMarks .refl (Catalogue.lt_size_of_find? found)) rest
  | promoted _ _ found _ _ _ _ _ _ publicList rest =>
      exact .trans (.mergeMarks .refl (Catalogue.lt_size_of_find? found))
        (publicList.trans rest)
  | skipped _ _ absent loads _ _ rest =>
      rcases loads.realname_eq with ⟨named, unmarked⟩
      rw [← named] at absent
      exact .trans (.enrol absent unmarked _) rest
  | loaded _ _ absent loads _ _ _ _ _ _ _ publicList privateList rest =>
      rcases loads.realname_eq with ⟨named, unmarked⟩
      rw [← named] at absent
      exact .trans (.enrol absent unmarked _)
        (publicList.trans (privateList.trans rest))

private theorem Resolve.foldlM_cons_eq_ok {read : α → β → Resolve α} {item : β}
    {rest : List β} {start next final : α} {before between after : Session}
    (first : read start item before = .ok next between)
    (later : rest.foldlM read next between = .ok final after) :
    (item :: rest).foldlM read start before = .ok final after := by
  rw [List.foldlM_cons]
  exact Resolve.bind_eq_ok_iff.mpr ⟨next, between, first, later⟩

namespace RecursiveWalk

variable {settings : Settings} {opened depth : Nat} {marks : Marks}
  {position : Position} {token : String} {session : Session}

private theorem checkVersion_again {before : Catalogue} {last : Option Nat}
    {comparator : Comparator}
    (satisfied : before.Satisfies settings last comparator token)
    (known : ∀ id, last = some id → id < before.size)
    (extended : session.resolution.catalogue.Extends before) :
    Walk.checkVersion settings last comparator token session =
      .ok () session := by
  rw [Walk.checkVersion, Resolve.catalogue_bind]
  cases ignored : settings.isOn .ignoreVersions with
  | true => rfl
  | false =>
      cases last with
      | none => rfl
      | some id =>
          rcases Catalogue.lt_size_iff.mp (known id rfl) with ⟨package, held⟩
          rcases extended id package held with ⟨more, kept⟩
          have holds := satisfied ignored package held
          have checked : (package.mark more).checkVersion comparator token =
              .ok () := if_pos holds
          simp only [Option.bind_some, kept, checked, Bool.false_eq_true,
            if_false]
          rfl

private theorem readToken_version_again {before : Catalogue}
    {comparator : Comparator} (pending : position.pending = some comparator)
    (satisfied : before.Satisfies settings position.last comparator token)
    (known : position.Known before)
    (extended : session.resolution.catalogue.Extends before) :
    readToken settings opened depth marks position token session =
      .ok .start session := by
  rw [readToken]
  simp only [pending, bind, EStateM.bind,
    checkVersion_again satisfied known extended]
  rfl

private theorem readToken_operator {id : Nat} {comparator : Comparator}
    (settled : position.pending = none)
    (operator : Comparator.ofToken? token = some comparator)
    (applies : position.last = some id) :
    readToken settings opened depth marks position token session =
      .ok ⟨some id, some comparator⟩ session := by
  rw [readToken]
  simp only [settled, operator, applies, Option.isNone_some,
    Bool.false_eq_true, if_false]
  rfl

private theorem readToken_again {marked : Catalogue} {id : Nat}
    (settled : position.pending = none)
    (names : Comparator.ofToken? token = none)
    (found : marked.find? (Location.realname token) = some id)
    (bears : marked.Bears id marks)
    (later : marked.Grows session.resolution.catalogue) :
    readToken settings opened depth marks position token session =
      .ok ⟨some id, none⟩ session := by
  have found := later.find?_eq_some found
  have bears := bears.later later.extended
  have quiet := bears.not_exposes
  rw [Catalogue.exposes] at quiet
  rw [readToken]
  simp only [settled, names, Resolve.catalogue_bind, found]
  rw [revisit, Resolve.catalogue_bind]
  simp only [quiet, Bool.false_eq_true, Bool.false_and, if_false,
    bears.mergeMarks_eq]
  rfl

/-- What has been read for a name does not depend on what stands in front of
it. -/
theorem readToken_eq_of_settled {other : Position}
    (settled : position.pending = none) (settled' : other.pending = none)
    (names : Comparator.ofToken? token = none) :
    readToken settings opened depth marks position token =
      readToken settings opened depth marks other token := by
  rw [readToken, readToken]
  simp only [settled, settled', names]

end RecursiveWalk

namespace Reads

open RecursiveWalk

variable {settings : Settings} {opened depth : Nat} {marks : Marks}
  {position final : Position} {tokens : List String} {before after : Catalogue}

private theorem of_settled {other : Position} {token : String}
    (reads : Reads settings opened depth marks position (token :: tokens) before
      final after)
    (settled : position.pending = none) (settled' : other.pending = none)
    (names : Comparator.ofToken? token = none) :
    Reads settings opened depth marks other (token :: tokens) before final
      after := by
  cases reads with
  | version pending => cases settled.symm.trans pending
  | operator _ operator => cases names.symm.trans operator
  | known _ _ found quiet rest => exact .known settled' names found quiet rest
  | promoted _ _ found exposes reads room publicList complete rest =>
      exact .promoted settled' names found exposes reads room publicList
        complete rest
  | skipped _ _ absent loads closed rest =>
      exact .skipped settled' names absent loads closed rest
  | loaded _ _ absent loads reads room publicList publicComplete privateList
      privateComplete rest =>
      exact .loaded settled' names absent loads reads room publicList
        publicComplete privateList privateComplete rest

/-- Tokens that have been read are read again without any effect, in whatever
has become of the catalogue. Only the list itself counts: the lists of the
packages in it are not opened any more. -/
theorem again
    (reads : Reads settings opened depth marks position tokens before final
      after)
    (known : position.Known before)
    {session : Session} (later : after.Grows session.resolution.catalogue) :
    tokens.foldlM (readToken settings opened depth marks) position session =
      .ok final session := by
  -- What a token has left behind is still there when it is read again: the name
  -- with its id, the marks, and a version that passes.
  induction reads with
  | done => rfl
  | version pending satisfied rest induction =>
      apply Resolve.foldlM_cons_eq_ok
      · exact readToken_version_again pending satisfied known
          (rest.grows.trans later).extended
      · exact induction (.start _) later
  | operator settled operator applies _ induction =>
      apply Resolve.foldlM_cons_eq_ok
      · exact readToken_operator settled operator applies
      · exact induction (.of_lt (known _ applies) _) later
  | known settled names found _ rest induction =>
      have bears := Catalogue.Bears.mergeMarks
        (Catalogue.lt_size_of_find? found)
      apply Resolve.foldlM_cons_eq_ok
      · exact readToken_again settled names (Catalogue.find?_mergeMarks found _)
          (bears _) (rest.grows.trans later)
      · exact induction (.of_lt (bears _).lt_size _) later
  | promoted settled names found _ _ _ publicReads _ rest _ induction =>
      have bears := Catalogue.Bears.mergeMarks
        (Catalogue.lt_size_of_find? found)
      have kept := (bears _).later publicReads.extended
      apply Resolve.foldlM_cons_eq_ok
      · exact readToken_again settled names (Catalogue.find?_mergeMarks found _)
          (bears _) (publicReads.grows.trans (rest.grows.trans later))
      · exact induction (.of_lt kept.lt_size _) later
  | skipped settled names _ loads _ rest induction =>
      apply Resolve.foldlM_cons_eq_ok
      · exact readToken_again settled names
          (loads.realname_eq.1 ▸ Catalogue.find?_enrol _ _ _) (.enrol _ _ _)
          (rest.grows.trans later)
      · exact induction (.of_lt (Catalogue.Bears.enrol _ _ _).lt_size _) later
  | loaded settled names _ loads _ _ publicReads _ privateReads _ rest _ _
      induction =>
      have kept := ((Catalogue.Bears.enrol _ _ _).later
        publicReads.extended).later privateReads.extended
      apply Resolve.foldlM_cons_eq_ok
      · exact readToken_again settled names
          (loads.realname_eq.1 ▸ Catalogue.find?_enrol _ _ _) (.enrol _ _ _)
          (publicReads.grows.trans
            (privateReads.grows.trans (rest.grows.trans later)))
      · exact induction (.of_lt kept.lt_size _) later

end Reads

namespace Resolve

/-- Between two complete arguments, one that could be resolved once is resolved
again with no effect at all. -/
theorem push_again {settings : Settings} {argument : String}
    {before after : Session}
    (settled : before.resolution.position.pending = none)
    (opens : ∀ token, (Text.tokens argument).head? = some token →
      Comparator.ofToken? token = none)
    (pushed : push settings argument before = .ok () after)
    (complete : after.resolution.position.pending = none) :
    push settings argument after = .ok () after := by
  have reads := reads_of_push pushed
  have again : (Text.tokens argument).foldlM
      (RecursiveWalk.readToken settings 1 0 .named)
      after.resolution.position after =
        .ok after.resolution.position after := by
    cases tokens : Text.tokens argument with
    | nil => rfl
    | cons token rest =>
        rw [tokens] at reads opens
        have names := opens token rfl
        -- What stands in front is another package now, but a name opens the
        -- list.
        have settled' : Position.start.pending = none := rfl
        have again := (reads.of_settled settled settled' names).again
          (.start _) .refl
        rw [List.foldlM_cons] at again ⊢
        rw [RecursiveWalk.readToken_eq_of_settled complete settled' names]
        exact again
  rw [push_eq_pushTokens, pushTokens, again]
  rfl

end Resolve

/-! A package that is exposed only when it is named behind the one that requires
it, with a constraint. -/

namespace NamedRequirement

def settings : Settings :=
  FileTable.settings .none
    [FileTable.metadataFile "y" "Requires.private: x\n",
      ("/p/x.pc", "Name:\nVersion: 2\nDescription:\nRequires: z\n"),
      FileTable.metadataFile "z" ""]

def argument : String := "y x > 1"

theorem push_again_unchanged : ∃ after,
    Resolve.push settings argument ⟨.empty, settings.freshLedger⟩ =
      .ok () after ∧
    after.resolution.catalogue.realnames = ["y", "x", "z"] ∧
    Resolve.push settings argument after = .ok () after := by
  have computed : (RecursiveWalk.pushAll? settings [argument]).map
      Catalogue.realnames = some ["y", "x", "z"] := by
    cbv
  rcases Resolve.pushAll_of_pushAll? computed with ⟨after, pushed, seen⟩
  rcases Resolve.bind_eq_ok_iff.mp pushed with ⟨_, between, pushed, finished⟩
  cases finished
  have first : (Text.tokens argument).head? = some "y" := by cbv
  have opens : ∀ token, (Text.tokens argument).head? = some token →
      Comparator.ofToken? token = none := by
    rw [first]
    rintro _ ⟨⟩
    rfl
  have awaits : (Text.tokens argument).foldl awaitsVersion false = false := by
    cbv
  have complete : after.resolution.position.pending = none := by
    have final := (reads_of_push pushed).pending_eq.trans awaits
    simpa using final
  exact ⟨after, pushed, seen, Resolve.push_again rfl opens pushed complete⟩

end NamedRequirement

end PkgConfig
