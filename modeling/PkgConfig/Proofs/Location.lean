import Mathlib.Data.List.TakeWhile
import PkgConfig.Location

namespace PkgConfig.Location

/-! Paths and their parts. A path is its directory, a separator and the name of
its file, or the name alone. -/

open Text

/-! ## Parts -/

def IsFlat (text : String) : Prop :=
  ∀ character ∈ text.toList, isSeparator character = false

theorem isFlat_fileName (path : String) : IsFlat (fileName path) := by
  intro character member
  rw [fileName, String.toList_ofList, List.mem_reverse] at member
  simpa using List.mem_takeWhile_imp member

theorem parts (path : String) :
    (directory path = "" ∧ fileName path = path) ∨
      ∃ separator, isSeparator separator = true ∧
        path.toList =
          (directory path).toList ++ separator :: (fileName path).toList := by
  have whole : path.toList.reverse.takeWhile (!isSeparator ·) ++
      path.toList.reverse.dropWhile (!isSeparator ·) = path.toList.reverse :=
    List.takeWhile_append_dropWhile
  cases remains : path.toList.reverse.dropWhile (!isSeparator ·) with
  | nil =>
      left
      rw [remains, List.append_nil] at whole
      simp [directory, fileName, remains, whole]
  | cons separator rest =>
      right
      have separates := List.head?_dropWhile_not (!isSeparator ·)
        path.toList.reverse
      rw [remains, List.head?_cons] at separates
      refine ⟨separator, by simpa using separates, ?_⟩
      rw [remains] at whole
      have backwards := congrArg List.reverse whole
      simp only [List.reverse_append, List.reverse_cons, List.reverse_reverse,
        List.append_assoc, List.singleton_append] at backwards
      simp [directory, fileName, remains, backwards]

private theorem parts_join {separator : Char}
    (separates : isSeparator separator = true)
    (front : String) {name : String} (flat : IsFlat name) :
    directory (front ++ String.singleton separator ++ name) = front ∧
      fileName (front ++ String.singleton separator ++ name) = name := by
  have inside : ∀ character ∈ name.toList.reverse,
      (!isSeparator character) = true := by
    intro character member
    simp [flat character (List.mem_reverse.mp member)]
  have stops : (separator :: front.toList.reverse).takeWhile
      (!isSeparator ·) = [] := by
    simp [separates]
  have stays : (separator :: front.toList.reverse).dropWhile
      (!isSeparator ·) = separator :: front.toList.reverse := by
    simp [separates]
  simp only [directory, fileName, String.toList_append,
    String.toList_singleton, List.append_assoc, List.singleton_append,
    List.reverse_append, List.reverse_cons]
  rw [List.takeWhile_append_of_pos inside, List.dropWhile_append_of_pos inside,
    stops, stays]
  simp

theorem fileName_of_isFlat {name : String} (flat : IsFlat name) :
    fileName name = name := by
  have inside : ∀ character ∈ name.toList.reverse,
      (!isSeparator character) = true := by
    intro character member
    simp [flat character (List.mem_reverse.mp member)]
  rw [fileName, List.takeWhile_eq_self_iff.mpr inside, List.reverse_reverse,
    String.ofList_toList]

/-! ## Metadata files -/

@[simp] theorem toList_suffix : ".pc".toList = suffix := rfl

private theorem IsFlat.of_suffixed {name : String}
    (flat : IsFlat (name ++ ".pc")) : IsFlat name := by
  intro character member
  apply flat
  rw [String.toList_append]
  exact List.mem_append_left _ member

private theorem isFlat_suffixed {name : String} (flat : IsFlat name) :
    IsFlat (name ++ ".pc") := by
  have ending : ∀ character ∈ suffix, isSeparator character = false := by
    simp [suffix, isSeparator]
  intro character member
  rw [String.toList_append, List.mem_append] at member
  rcases member with inside | inside
  · exact flat character inside
  · exact ending character inside

theorem parts_metadataFile (front : String) {name : String}
    (flat : IsFlat name) :
    directory (metadataFile front name) = front ∧
      fileName (metadataFile front name) = name ++ ".pc" := by
  have joined := parts_join (by decide : isSeparator '/' = true) front
    (isFlat_suffixed flat)
  rwa [← String.append_assoc] at joined

theorem fileName_metadataFile (front token : String) :
    fileName (metadataFile front token) = fileName token ++ ".pc" := by
  have flat := isFlat_fileName token
  rcases parts token with ⟨_, alone⟩ | ⟨separator, separates, whole⟩
  · rw [alone] at flat ⊢
    exact (parts_metadataFile front flat).2
  · have joined : metadataFile front token =
        front ++ "/" ++ directory token ++ String.singleton separator ++
          (fileName token ++ ".pc") := by
      apply String.toList_inj.mp
      simp [metadataFile, whole]
    rw [joined]
    exact (parts_join separates _ (isFlat_suffixed flat)).2

private theorem isMetadataFile_iff {token : String} :
    isMetadataFile token = true ↔ ∃ name, name ≠ "" ∧ token = name ++ ".pc" := by
  rw [isMetadataFile, Bool.and_eq_true, List.isSuffixOf_iff_suffix,
    bne_iff_ne]
  constructor
  · intro ⟨⟨front, shape⟩, longer⟩
    refine ⟨String.ofList front, ?_, ?_⟩
    · intro empty
      rw [String.ofList_eq_empty_iff.mp empty] at shape
      exact longer shape.symm
    · apply String.toList_inj.mp
      simp [shape]
  · intro ⟨name, nonempty, written⟩
    subst written
    rw [String.toList_append]
    refine ⟨⟨name.toList, rfl⟩, ?_⟩
    simpa using nonempty

private theorem realname_suffixed {name : String} (nonempty : name ≠ "")
    (flat : IsFlat name) : realname (name ++ ".pc") = name := by
  have file := isMetadataFile_iff.mpr ⟨name, nonempty, rfl⟩
  rw [realname, if_pos file, fileName_of_isFlat (isFlat_suffixed flat),
    String.toList_append, toList_suffix, suffix]
  simp

theorem isMetadataFile_metadataFile (front name : String) :
    isMetadataFile (metadataFile front name) = true := by
  refine isMetadataFile_iff.mpr ⟨front ++ "/" ++ name, ?_, rfl⟩
  intro empty
  have characters := congrArg String.toList empty
  simp at characters

theorem realname_metadataFile (front : String) {name : String}
    (flat : IsFlat name) : realname (metadataFile front name) = name := by
  rw [realname, if_pos (isMetadataFile_metadataFile front name),
    (parts_metadataFile front flat).2, String.toList_append, toList_suffix,
    suffix]
  simp

/-- What a file in a directory is named, if it is about a package. -/
theorem isMetadataFile_and_realname_iff {file name : String}
    (flat : IsFlat file) (nonempty : name ≠ "") :
    isMetadataFile file = true ∧ realname file = name ↔
      file = name ++ ".pc" := by
  constructor
  · intro ⟨metadata, named⟩
    rcases isMetadataFile_iff.mp metadata with ⟨front, present, rfl⟩
    rw [realname_suffixed present flat.of_suffixed] at named
    rw [named]
  · intro written
    subst written
    exact ⟨isMetadataFile_iff.mpr ⟨name, nonempty, rfl⟩,
      realname_suffixed nonempty flat.of_suffixed⟩

end PkgConfig.Location
