import PkgConfig.Proofs.PlacedPaths

namespace PkgConfig

/-! Encoding paths and decoding them. Decoding undoes an encoding, up to what was
taken for encoded in the path itself, and an encoded path means nothing to the
rules of words and references. -/

namespace Text

/-! ## Characters -/

private theorem decodeCharacter?_of_isGuarded {character : Char}
    (guards : isGuarded character = true) :
    decodeCharacter? character = none := by
  have all : guarded.all (fun character =>
      (decodeCharacter? character).isNone) = true := by
    decide
  exact Option.isNone_iff_eq_none.mp
    (List.all_eq_true.mp all character (mem_guarded_iff.mpr guards))

private theorem decodeCharacter_encodeCharacter (character : Char) :
    decodeCharacter (encodeCharacter character) =
      decodeCharacter character := by
  cases guards : isGuarded character with
  | true =>
      rw [decodeCharacter, decodeCharacter, decodeCharacter?_of_isGuarded guards,
        decodeCharacter?_encodeCharacter (mem_guarded_iff.mpr guards)]
      rfl
  | false => rw [encodeCharacter_of_unguarded guards]

private theorem decodeCharacter_eq_self_iff {character : Char} :
    decodeCharacter character = character ↔
      decodeCharacter? character = none := by
  constructor
  · intro same
    cases decoded : decodeCharacter? character with
    | none => rfl
    | some original =>
        rw [decodeCharacter, decoded, Option.getD_some] at same
        rcases encodeCharacter_of_decodeCharacter? decoded with
          ⟨listed, encoded⟩
        have unguarded := isGuarded_encodeCharacter original
        rw [encoded, ← same, mem_guarded_iff.mp listed] at unguarded
        cases unguarded
  · intro undecoded
    rw [decodeCharacter, undecoded, Option.getD_none]

/-- A character stands for nothing else exactly if it is at the distance of the
encoding from no guarded character. -/
theorem decodeCharacter?_eq_none_iff {character : Char} :
    decodeCharacter? character = none ↔
      ∀ original, isGuarded original = true →
        Char.ofNat (encodingBase + original.toNat) ≠ character := by
  constructor
  · rintro undecoded original guards rfl
    have encoded : encodeCharacter original =
        Char.ofNat (encodingBase + original.toNat) := if_pos guards
    rw [← encoded, decodeCharacter?_encodeCharacter (mem_guarded_iff.mpr guards)]
      at undecoded
    cases undecoded
  · intro apart
    cases decoded : decodeCharacter? character with
    | none => rfl
    | some original =>
        rcases encodeCharacter_of_decodeCharacter? decoded with
          ⟨listed, encoded⟩
        have guards := mem_guarded_iff.mp listed
        rw [encodeCharacter, if_pos guards] at encoded
        exact absurd encoded (apart original guards)

/-! ## Texts -/

def Unencoded (text : String) : Prop :=
  ∀ original, isGuarded original = true →
    Char.ofNat (encodingBase + original.toNat) ∉ text.toList

private theorem unencoded_iff {text : String} :
    Unencoded text ↔
      ∀ character ∈ text.toList, decodeCharacter? character = none := by
  simp only [decodeCharacter?_eq_none_iff]
  constructor
  · rintro unencoded character member original guards rfl
    exact unencoded original guards member
  · intro apart original guards member
    exact apart _ member original guards rfl

private theorem decode_encode (text : String) : decode
    (encode text) = decode text := by
  rw [decode, encode, String.toList_ofList, List.map_map, decode]
  congr 1
  exact List.map_congr_left fun character _ =>
    decodeCharacter_encodeCharacter character

private theorem decode_eq_self_iff {text : String} :
    decode text = text ↔ Unencoded text := by
  have each := @List.map_inj_left _ _ text.toList decodeCharacter id
  rw [List.map_id] at each
  rw [← String.toList_inj, decode, String.toList_ofList, each, unencoded_iff]
  exact forall₂_congr fun _ _ => decodeCharacter_eq_self_iff

private theorem isGuarded_of_mem_encode {text : String} {character : Char}
    (member : character ∈ (encode text).toList) :
    isGuarded character = false := by
  rw [encode, String.toList_ofList] at member
  rcases List.mem_map.mp member with ⟨original, _, rfl⟩
  exact isGuarded_encodeCharacter original

private theorem encode_inj {text other : String} (unencoded : Unencoded text)
    (unencoded' : Unencoded other) (same : encode text = encode other) :
    text = other := by
  calc
    text = decode text := (decode_eq_self_iff.mpr unencoded).symm
    _ = decode (encode text) := (decode_encode text).symm
    _ = decode (encode other) := by rw [same]
    _ = decode other := decode_encode other
    _ = other := decode_eq_self_iff.mpr unencoded'

end Text

/-! ## Expansion -/

private theorem expand_encode (scope : Scope) (path text : String)
    {before : Ledger} (enough : before.used + (Text.encode text).utf8ByteSize ≤
      before.budget.capacity) :
    ∃ after, expand scope path (Text.encode text) before =
        .ok (Text.encode text) after ∧
      before.Charged (Text.encode text).utf8ByteSize after := by
  have bytes : Text.byteLength (Text.encode text).toList =
      (Text.encode text).utf8ByteSize := by
    rw [Text.byteLength_eq_utf8ByteSize, String.ofList_toList]
  rcases Ledger.Charged.exists_of_fits enough with ⟨after, charged⟩
  have means : Expansion.Means scope (Text.encode text).toList
      (Text.encode text).toList :=
    ⟨0, .encoded scope text, Nat.zero_le 127⟩
  have expanded := Expansion.expand_of_means means path (bytes ▸ charged)
  rw [String.ofList_toList] at expanded
  exact ⟨after, expanded, charged⟩

/-- Decoding an encoded path comes to decoding the path, which changes it exactly
if it holds encoded code points. An encoding holds no blank and nothing that a
shell acts on; paths without encoded code points have different encodings, and
expansion leaves every encoding as it is. -/
theorem encoding_laws (text : String) :
    Text.decode (Text.encode text) = Text.decode text ∧
      (Text.decode text = text ↔ Text.Unencoded text) ∧
      (∀ character ∈ (Text.encode text).toList,
        Text.isBlank character = false ∧ Text.isShellMeta character = false ∧
          character ∉ ['$', '(', ')']) ∧
      (∀ other, Text.Unencoded text → Text.Unencoded other →
        Text.encode text = Text.encode other → text = other) ∧
      ∀ (scope : Scope) (path : String) (before : Ledger),
        before.used + (Text.encode text).utf8ByteSize ≤
            before.budget.capacity →
          ∃ after, expand scope path (Text.encode text) before =
              .ok (Text.encode text) after ∧
            before.Charged (Text.encode text).utf8ByteSize after := by
  refine ⟨Text.decode_encode text, Text.decode_eq_self_iff, ?_, ?_, ?_⟩
  · intro character member
    have unguarded := Text.isGuarded_of_mem_encode member
    simp only [Text.isGuarded, Bool.or_eq_false_iff] at unguarded
    rcases unguarded with ⟨⟨visible, literal⟩, other⟩
    refine ⟨visible, literal, ?_⟩
    simpa using other
  · exact fun other unencoded unencoded' same =>
      Text.encode_inj unencoded unencoded' same
  · exact fun scope path before enough => expand_encode scope path text enough

def guardedPath : String := "/my dir/$x"

theorem encoding_laws_guarded :
    Text.Unencoded guardedPath ∧
      (Ledger.fresh 100).used + (Text.encode guardedPath).utf8ByteSize ≤
        (Ledger.fresh 100).budget.capacity ∧
      Text.encode guardedPath = "/my\ue020dir/\ue024x" ∧
      guardedPath = Text.decode (Text.encode guardedPath) ∧
      ∃ after, expand ⟨.empty, .empty⟩ "a.pc" (Text.encode guardedPath)
          (.fresh 100) = .ok "/my\ue020dir/\ue024x" after ∧
        after.used = 14 := by
  have encoded : Text.encode guardedPath = "/my\ue020dir/\ue024x" := by decide
  have decoded : Text.decode (Text.encode guardedPath) = "/my dir/$x" := by
    decide
  have unencoded : Text.Unencoded guardedPath :=
    Text.decode_eq_self_iff.mp (by decide)
  have enough : (Ledger.fresh 100).used +
      (Text.encode guardedPath).utf8ByteSize ≤
        (Ledger.fresh 100).budget.capacity := by
    rw [encoded]
    decide
  rcases encoding_laws guardedPath with ⟨_, _, _, distinct, expands⟩
  rcases expands ⟨.empty, .empty⟩ "a.pc" (.fresh 100) enough with
    ⟨after, expanded, charged⟩
  have same : guardedPath = Text.decode (Text.encode guardedPath) := by
    refine distinct _ unencoded ?_ ?_
    · rw [decoded]
      exact unencoded
    · rw [decoded]
      rfl
  have bytes : "/my\ue020dir/\ue024x".utf8ByteSize = 14 := by decide
  rw [encoded] at expanded charged
  refine ⟨unencoded, enough, encoded, same, after, ?_, ?_⟩
  · rw [encoded]
    exact expanded
  · rw [charged.used, bytes]
    rfl

end PkgConfig
