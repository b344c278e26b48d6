import Mathlib.Algebra.GroupWithZero.Nat
import PkgConfig.Proofs.WordCharges
import PkgConfig.Proofs.WordParts

namespace PkgConfig

/-! System directories. A directory is encoded before the flag for it is read as
a word, so it never falls apart, and in the argument everything that was
encoded stands behind a backslash. -/

/-! ## Encoded words -/

namespace Text

private theorem Word.scan_encoded (word text : List Char) :
    scan none word (text.map encodeCharacter) =
      ⟨word.reverse ++ text.flatMap shield, [], true⟩ := by
  induction text generalizing word with
  | nil => rw [List.flatMap_nil, List.append_nil]; rfl
  | cons character rest induction =>
      have stays : Glyph.next ⟨none, encodeCharacter character⟩ = none := by
        rw [Glyph.next, Glyph.isMark_encoded (by simp)]
      rw [List.map_cons, scan_cons (by simp), Glyph.separates_encoded, stays,
        Glyph.written_encoded (by simp)]
      simp [induction]

end Text

namespace ArgumentList

/-! ## Flags -/

def systemFlag (letter : Char) (directory : String) : String :=
  String.ofList ('-' :: letter :: directory.toList.flatMap Text.shield)

/-- What is charged for leaving out a system directory: its flag before it is
read as a word and after it. -/
def systemFlagBytes (letter : Char) (directory : String) : Nat :=
  Text.byteLength (directoryFlag letter directory) +
    (systemFlag letter directory).utf8ByteSize

theorem hasFlag_systemFlag (letter : Char) (directory : String) :
    Argument.hasFlag (systemFlag letter directory) letter = true := by
  simp [Argument.hasFlag, systemFlag]

theorem isPlain_flag {letter : Char} (plain : letter = 'I' ∨ letter = 'L') :
    Text.IsPlain ['-', letter] := by
  simp only [Text.IsPlain, List.forall_mem_cons]
  rcases plain with rfl | rfl
  · exact ⟨by decide, by decide, nofun⟩
  · exact ⟨by decide, by decide, nofun⟩

theorem toList_systemFlag {letter : Char}
    (plain : letter = 'I' ∨ letter = 'L') (directory : String) :
    (systemFlag letter directory).toList =
      ('-' :: letter :: directory.toList).flatMap Text.shield := by
  calc (systemFlag letter directory).toList =
        ['-', letter] ++ directory.toList.flatMap Text.shield :=
        String.toList_ofList
    _ = ['-', letter].flatMap Text.shield ++
        directory.toList.flatMap Text.shield := by
        rw [(isPlain_flag plain).flatMap_shield]
    _ = ('-' :: letter :: directory.toList).flatMap Text.shield :=
        List.flatMap_append.symm

private theorem directoryFlag_eq {letter : Char}
    (plain : letter = 'I' ∨ letter = 'L') (directory : String) :
    directoryFlag letter directory =
      ('-' :: letter :: directory.toList).map Text.encodeCharacter := by
  calc directoryFlag letter directory =
        ['-', letter] ++ directory.toList.map Text.encodeCharacter := by
        rw [directoryFlag, Text.encode, String.toList_ofList]
        rfl
    _ = ['-', letter].map Text.encodeCharacter ++
        directory.toList.map Text.encodeCharacter := by
        rw [(isPlain_flag plain).map_encodeCharacter]
    _ = ('-' :: letter :: directory.toList).map Text.encodeCharacter :=
        List.map_append.symm

private theorem ofText_directoryFlag {letter : Char}
    (plain : letter = 'I' ∨ letter = 'L') (directory : String) :
    Text.Word.ofText (directoryFlag letter directory) =
      ⟨(systemFlag letter directory).toList, [], true⟩ := by
  have dash : Text.isBlank (Text.encodeCharacter '-') = false := by decide
  rw [Text.Word.ofText, directoryFlag_eq plain, List.map_cons,
    List.dropWhile_cons_of_neg (by simp [dash]), ← List.map_cons,
    Text.Word.scan_encoded, toList_systemFlag plain]
  rfl

private theorem excludeDirectory_eq_ok {list result : ArgumentList}
    {letter : Char} {directory : String} {before after : Ledger}
    (plain : letter = 'I' ∨ letter = 'L')
    (excluded : list.excludeDirectory letter directory before =
      .ok result after) :
    result = list.exclude (systemFlag letter directory) ∧
      after.used = before.used + systemFlagBytes letter directory := by
  rcases Run.bind_eq_ok_iff.mp excluded with ⟨_, encoded, charged, excluded⟩
  rcases Run.bind_eq_ok_iff.mp excluded with ⟨closed, written, word, excluded⟩
  rw [ofText_directoryFlag plain] at word excluded
  rcases Text.Word.charge_eq_ok_iff.mp word with ⟨rfl, _, bytes, rfl⟩
  simp only [List.isEmpty_nil, Bool.and_self, if_true, String.ofList_toList]
    at excluded
  cases excluded
  refine ⟨rfl, ?_⟩
  have first := (Run.charge_eq_ok_iff.mp charged).used
  have second := bytes.used
  rw [Text.byteLength_eq_utf8ByteSize, String.ofList_toList, first] at second
  simp only [systemFlagBytes, ← Nat.add_assoc]
  exact second

/-! ## Lists of directories -/

theorem excludeDirectories_complete (list : ArgumentList) (letter : Char)
    (directories : List String) :
    (list.excludeDirectories letter directories >>= Exclusion.complete) =
      directories.foldlM (fun list directory =>
        list.excludeDirectory letter directory) list := by
  induction directories generalizing list with
  | nil => rfl
  | cons directory rest induction =>
      funext before
      have later := fun next => congrFun (induction next)
      simp only [bind, EStateM.bind] at later
      simp only [excludeDirectories, List.foldlM_cons, bind, EStateM.bind,
        Run.attempt]
      cases list.excludeDirectory letter directory before with
      | error error after => rfl
      | ok next after => exact later next after

theorem excludeEach_eq_ok {list result : ArgumentList} {letter : Char}
    {directories : List String} {before after : Ledger}
    (plain : letter = 'I' ∨ letter = 'L')
    (excluded : directories.foldlM (fun list directory =>
        list.excludeDirectory letter directory) list before =
      .ok result after) :
    result = (directories.map (systemFlag letter)).foldl exclude list ∧
      after.used = before.used +
        (directories.map (systemFlagBytes letter)).sum := by
  induction directories generalizing list before with
  | nil =>
      cases excluded
      exact ⟨rfl, rfl⟩
  | cons directory rest induction =>
      rw [List.foldlM_cons] at excluded
      rcases Run.bind_eq_ok_iff.mp excluded with ⟨next, _, first, excluded⟩
      rcases excludeDirectory_eq_ok plain first with ⟨rfl, used⟩
      rcases induction excluded with ⟨rfl, total⟩
      refine ⟨rfl, ?_⟩
      rw [total, used, List.map_cons, List.sum_cons, Nat.add_assoc]

end ArgumentList

end PkgConfig
