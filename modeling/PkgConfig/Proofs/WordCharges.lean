import PkgConfig.Proofs.WordSplitting

namespace PkgConfig

/-! What the words of a field cost. A field that is read to its end is charged
with its words as they are written, and with nothing else. -/

namespace Text

theorem Word.charge_eq_ok_iff {word : Word} {closed : Bool}
    {before after : Ledger} :
    word.charge before = .ok closed after ↔
      closed = word.closed ∧
        ∃ written, before.Charged (byteLength word.escaped) written ∧
          after = if word.closed then written else before := by
  constructor
  · intro charged
    rcases Run.bind_eq_ok_iff.mp charged with ⟨_, _, _, paid⟩
    rcases Run.bind_eq_ok_iff.mp paid with ⟨_, written, each, _⟩
    cases ‹Run.used before = _›
    have bytes := Run.chargeEach_eq_ok_iff.mp each
    rw [charge_eq_ok bytes] at charged
    cases charged
    exact ⟨rfl, written, bytes, rfl⟩
  · rintro ⟨rfl, written, bytes, rfl⟩
    exact charge_eq_ok bytes

private theorem takeWords_eq_ok {text : List Char} {taken : List String}
    {closed : Bool} {before after : Ledger}
    (took : takeWords text before = .ok (taken, closed) after) :
    taken = (splitWords text).map String.ofList ∧
      closed = (openAtEnd none text).isNone ∧
      before.Charged (byteLength (splitWords text).flatten) after := by
  induction measured : text.length using Nat.strongRecOn generalizing
    text taken before with
  | ind length shorter =>
  rw [takeWords] at took
  by_cases empty : text = []
  · simp only [empty, dif_pos] at took ⊢
    cases took
    exact ⟨rfl, rfl, .nothing after⟩
  · rw [dif_neg empty] at took
    have less := Word.length_rest_ofText empty
    rcases split_dropWhile text with ⟨words, _, opened⟩
    rcases @takes_scan none (by simp) [] (text.dropWhile isBlank) with
      ⟨first, others, escaped, takes⟩
    have ofText : Word.scan none [] (text.dropWhile isBlank) =
        Word.ofText text := rfl
    rw [ofText] at escaped takes
    rw [List.reverse_nil, List.nil_append] at escaped
    rw [← words, ← opened]
    rcases Run.bind_eq_ok_iff.mp took with ⟨ends, between, charged, took⟩
    rcases Word.charge_eq_ok_iff.mp charged with ⟨rfl, written, bytes, rfl⟩
    cases ended : (Word.ofText text).closed with
    | false =>
        simp only [ended, Bool.false_eq_true, if_false] at took
        cases took
        rw [takes.splitWords_of_unclosed ended, (takes.unfinished ended).2]
        exact ⟨rfl, rfl, .nothing after⟩
    | true =>
        simp only [ended, if_true] at took
        rcases Run.bind_eq_ok_iff.mp took with ⟨later, _, rest, finished⟩
        cases finished
        rcases shorter _ (measured ▸ less) rest rfl with
          ⟨same, closed, charged⟩
        rw [takes.splitWords_of_closed ended, takes.complete ended]
        refine ⟨?_, closed, ?_⟩
        · rw [same, escaped, List.map_append]
        · have alone : ([first].filter (!·.isEmpty)).flatten = first := by
            cases first <;> simp
          rw [List.flatten_append, alone, ← escaped]
          exact Ledger.Charged.append_iff.mpr ⟨written, bytes, charged⟩

end Text

/-- A field that could be read has no open quote, and is charged with its
words. -/
theorem fieldWords_charged {realname : String} {words result : List String}
    {text : List Char} {before after : Ledger}
    (split : fieldWords realname words text before = .ok result after) :
    Text.openAtEnd none text = none ∧
      result = words.reverse ++ (Text.splitWords text).map String.ofList ∧
      before.Charged (Text.byteLength (Text.splitWords text).flatten) after := by
  rw [Text.fieldWords_eq_takeWords] at split
  rcases Run.bind_eq_ok_iff.mp split with ⟨⟨taken, closed⟩, between, took, split⟩
  rcases Text.takeWords_eq_ok took with ⟨rfl, rfl, charged⟩
  dsimp only at split
  split at split
  next closed =>
    cases split
    exact ⟨Option.isNone_iff_eq_none.mp closed, rfl, charged⟩
  · cases split

end PkgConfig
