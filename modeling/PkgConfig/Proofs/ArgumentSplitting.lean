import PkgConfig.Proofs.Detachment
import PkgConfig.Proofs.Evaluation

namespace PkgConfig

/-! Arguments and their tokens. How the tokens of a command line are distributed
over its arguments makes no difference to a resolution. -/

/-! ## Tokens in a text -/

namespace Text

structure IsToken (token : String) : Prop where
  nonempty : token ≠ ""
  unbroken : ∀ character ∈ token.toList, separatesTokens character = false

private theorem cutSegments_of_unbroken {separates : Char → Bool}
    {text : List Char}
    (unbroken : ∀ character ∈ text, separates character = false) :
    cutSegments separates text = [text] := by
  induction text with
  | nil => rfl
  | cons character rest induction =>
      rcases List.forall_mem_cons.mp unbroken with ⟨inside, unbroken⟩
      have cut : cutSegments separates (character :: rest) =
          attachToSegment separates character (cutSegments separates rest) :=
        rfl
      rw [cut, induction unbroken]
      simp [attachToSegment, inside]

theorem IsToken.tokens_eq {token : String} (single : IsToken token) :
    tokens token = [token] := by
  simp [tokens, segments, cutSegments_of_unbroken single.unbroken,
    single.nonempty]

theorem exists_cutSegments (separates : Char → Bool) (text : List Char) :
    ∃ first others, cutSegments separates text = first :: others ∧
      first <+: text ∧ (∀ segment ∈ others, segment <:+: text) ∧
      ∀ segment ∈ first :: others, ∀ character ∈ segment,
        separates character = false := by
  induction text with
  | nil => exact ⟨[], [], rfl, List.prefix_rfl, by simp, by simp⟩
  | cons character rest induction =>
      rcases induction with ⟨first, others, cut, begins, parts, unbroken⟩
      have attached : cutSegments separates (character :: rest) =
          attachToSegment separates character (first :: others) :=
        congrArg _ cut
      have within : ∀ segment ∈ others, segment <:+: character :: rest :=
        fun segment member => List.infix_cons (parts segment member)
      cases separator : separates character with
      | true =>
          refine ⟨[], first :: others, ?_, List.nil_prefix, ?_, ?_⟩
          · rw [attached, attachToSegment, if_pos separator]
          · exact List.forall_mem_cons.mpr
              ⟨List.infix_cons begins.isInfix, within⟩
          · exact List.forall_mem_cons.mpr ⟨by simp, unbroken⟩
      | false =>
          rcases List.forall_mem_cons.mp unbroken with ⟨here, there⟩
          refine ⟨character :: first, others, ?_,
            (List.prefix_cons_inj character).mpr begins, within, ?_⟩
          · rw [attached, attachToSegment, if_neg (by simp [separator])]
          · exact List.forall_mem_cons.mpr
              ⟨List.forall_mem_cons.mpr ⟨separator, here⟩, there⟩

theorem of_mem_tokens {token text : String} (member : token ∈ tokens text) :
    IsToken token ∧ token.toList <:+: text.toList := by
  rcases List.mem_filter.mp member with ⟨listed, nonempty⟩
  rcases List.mem_map.mp listed with ⟨segment, among, rfl⟩
  rcases exists_cutSegments separatesTokens text.toList with
    ⟨first, others, cut, begins, parts, unbroken⟩
  rw [cut] at among
  refine ⟨⟨by simpa using nonempty, ?_⟩, ?_⟩
  · rw [String.toList_ofList]
    exact unbroken segment among
  · rw [String.toList_ofList]
    rcases List.mem_cons.mp among with same | later
    · exact same ▸ begins.isInfix
    · exact parts segment later

/-- Nothing in this text runs on into what follows it. -/
def EndsApart (front : String) : Prop :=
  ∀ character, front.toList.getLast? = some character →
    separatesTokens character = true

def StartsApart (back : String) : Prop :=
  ∀ character, back.toList.head? = some character →
    separatesTokens character = true

theorem EndsApart.tokens_append {front : String} (apart : EndsApart front)
    (back : String) : tokens (front ++ back) = tokens front ++ tokens back := by
  rcases List.eq_nil_or_concat front.toList with empty | ⟨initial, last, shape⟩
  · rw [String.toList_eq_nil_iff.mp empty, String.empty_append]
    rfl
  · have separates : separatesTokens last = true :=
      apart last (by simp [shape])
    have written : front = String.ofList initial ++ String.singleton last := by
      apply String.toList_inj.mp
      simp [shape]
    have alone := Text.tokens_append separates (String.ofList initial) ""
    rw [String.append_empty, ← written] at alone
    rw [alone, written, Text.tokens_append separates, List.append_assoc]
    rfl

theorem StartsApart.tokens_append {back : String} (apart : StartsApart back)
    (front : String) : tokens (front ++ back) = tokens front ++ tokens back := by
  cases shape : back.toList with
  | nil =>
      rw [String.toList_eq_nil_iff.mp shape, String.append_empty]
      exact (List.append_nil _).symm
  | cons first rest =>
      have separates : separatesTokens first = true :=
        apart first (by simp [shape])
      have written : back = String.singleton first ++ String.ofList rest := by
        apply String.toList_inj.mp
        simp [shape]
      have alone := Text.tokens_append separates "" (String.ofList rest)
      rw [String.empty_append, ← written] at alone
      rw [alone, written, ← String.append_assoc, Text.tokens_append separates]
      rfl

theorem IsToken.tokens_between {token front back : String}
    (single : IsToken token) (opens : EndsApart front)
    (closes : StartsApart back) :
    tokens (front ++ token ++ back) = tokens front ++ token :: tokens back := by
  rw [closes.tokens_append, opens.tokens_append, single.tokens_eq,
    List.append_assoc]
  rfl

end Text

/-! ## Joined arguments -/

private theorem Text.tokens_intercalate {separator : Char}
    (separates : separatesTokens separator = true) (arguments : List String) :
    tokens ((String.singleton separator).intercalate arguments) =
      arguments.flatMap tokens := by
  induction arguments with
  | nil =>
      rw [String.intercalate_nil]
      decide
  | cons argument rest induction =>
      cases rest with
      | nil => simp [String.intercalate_singleton]
      | cons next rest =>
          rw [String.intercalate_cons_cons, tokens_append separates, induction]
          rfl

namespace Resolve

/-! ## Outcomes -/

/-- Both succeed in the same state, or both fail alike. What a failure leaves
behind may differ in the position to go on from. -/
inductive SameOutcome :
    EStateM.Result Error Session Unit → EStateM.Result Error Session Unit → Prop
  | success : SameOutcome (.ok () after) (.ok () after)
  | failure
      (catalogue : left.resolution.catalogue = right.resolution.catalogue)
      (ledger : left.ledger = right.ledger) :
      SameOutcome (.error error left) (.error error right)

namespace SameOutcome

theorem refl (result : EStateM.Result Error Session Unit) :
    SameOutcome result result := by
  cases result with
  | ok _ after => exact .success
  | error error after => exact .failure rfl rfl

theorem trans {first second third : EStateM.Result Error Session Unit}
    (earlier : SameOutcome first second) (later : SameOutcome second third) :
    SameOutcome first third := by
  cases earlier with
  | success => exact later
  | failure catalogue ledger =>
      cases later with
      | failure catalogue' ledger' =>
          exact .failure (catalogue.trans catalogue') (ledger.trans ledger')

end SameOutcome

/-! ## Tokens -/

def pushTokens (settings : Settings) (tokens : List String) : Resolve Unit :=
  fun session =>
    match tokens.foldlM (RecursiveWalk.readToken settings 1 0 .named)
      session.resolution.position session with
    | .ok position after => .ok () (after.movedTo position)
    | .error error after => .error error after

theorem push_eq_pushTokens (settings : Settings) (argument : String) :
    push settings argument = pushTokens settings (Text.tokens argument) := by
  funext session
  simp only [push, pushTokens, RecursiveWalk.run_start,
    RecursiveWalk.readArgument]
  rfl

/-- The position that the second list starts from is handed over by the session,
or within one list. -/
theorem pushTokens_append (settings : Settings) (left right : List String)
    (session : Session) :
    SameOutcome
      ((pushTokens settings left >>= fun _ => pushTokens settings right) session)
      (pushTokens settings (left ++ right) session) := by
  simp only [bind, EStateM.bind, pushTokens, List.foldlM_append]
  cases left.foldlM (RecursiveWalk.readToken settings 1 0 .named)
      session.resolution.position session with
  | error error after => exact .refl _
  | ok position between =>
      have detached := Detached.readTokens settings right position between
        position
      have handed : (between.movedTo position).resolution.position =
          position := rfl
      simp only [handed, detached]
      cases right.foldlM (RecursiveWalk.readToken settings 1 0 .named) position
          between with
      | ok final after => exact .success
      | error error after => exact .failure rfl rfl

private theorem pushAll_tokens (settings : Settings) (arguments : List String)
    (session : Session) :
    SameOutcome (pushAll settings arguments session)
      (pushTokens settings (arguments.flatMap Text.tokens) session) := by
  induction arguments generalizing session with
  | nil => exact .success
  | cons argument rest induction =>
      refine .trans ?_ (pushTokens_append settings (Text.tokens argument)
        (rest.flatMap Text.tokens) session)
      simp only [pushAll, bind, EStateM.bind, push_eq_pushTokens]
      cases pushTokens settings (Text.tokens argument) session with
      | ok _ between => exact induction between
      | error error after => exact .refl _

/-- Arguments can as well be joined by a separator and given as one. -/
theorem pushAll_joined (settings : Settings) {separator : Char}
    (separates : Text.separatesTokens separator = true)
    (arguments : List String) (session : Session) :
    SameOutcome (pushAll settings arguments session)
      (push settings ((String.singleton separator).intercalate arguments)
        session) := by
  rw [push_eq_pushTokens, Text.tokens_intercalate separates]
  exact pushAll_tokens settings arguments session

/-- A constraint that is not satisfied, in three arguments or in one. -/
theorem pushAll_joined_constraint :
    let settings := FileTable.settings .none [FileTable.metadataFile "a" ""]
    let session : Session := ⟨.empty, settings.freshLedger⟩
    Text.separatesTokens ',' = true ∧
      SameOutcome (pushAll settings ["a", ">=", "2"] session)
        (push settings "a,>=,2" session) ∧
      ∃ after, push settings "a,>=,2" session =
        .error (.versionMismatch "a" .greaterOrEqual "2" "") after := by
  intro settings session
  have separates : Text.separatesTokens ',' = true := by decide
  have joined : (String.singleton ',').intercalate ["a", ">=", "2"] =
      "a,>=,2" := by decide
  have same := pushAll_joined settings separates ["a", ">=", "2"] session
  have failure : RecursiveWalk.failure? settings "a,>=,2" =
      some (.versionMismatch "a" .greaterOrEqual "2" "") := by
    cbv
  rw [joined] at same
  exact ⟨separates, same, push_of_failure? failure⟩

end Resolve

end PkgConfig
