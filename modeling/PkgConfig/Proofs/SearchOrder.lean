import PkgConfig.Proofs.ArgumentSplitting

namespace PkgConfig

/-! The order of the directories that are searched. Lists of directories are cut
at their delimiter, and joining the directories again loses nothing of them. -/

namespace Text

private theorem cutSegments_eq_splitOnP (separates : Char → Bool)
    (text : List Char) :
    cutSegments separates text = text.splitOnP separates := by
  induction text with
  | nil => rfl
  | cons character rest induction =>
      have cut : cutSegments separates (character :: rest) =
          attachToSegment separates character (cutSegments separates rest) :=
        rfl
      rw [cut, induction, List.splitOnP_cons_eq_if_modifyHead]
      rcases List.exists_cons_of_ne_nil
        (List.splitOnP_ne_nil separates rest) with ⟨first, others, same⟩
      rw [same, attachToSegment]
      rfl

end Text

namespace SearchPath

/-! ## Lists of directories -/

def listed (delimiter : Char) (text : String) : List String :=
  ((text.toList.splitOn delimiter).filter (!·.isEmpty)).map String.ofList

private theorem listed_eq_filter (delimiter : Char) (text : String) :
    listed delimiter text =
      (Text.segments (· == delimiter) text).filter (· != "") := by
  rw [listed, Text.segments, Text.cutSegments_eq_splitOnP, List.filter_map,
    List.splitOn_eq_splitOnP]
  congr 1
  apply List.filter_congr
  intro segment _
  cases segment with
  | nil => rfl
  | cons character rest => simp

private theorem directories_foldl_add (texts : List String)
    (path : SearchPath) : (texts.foldl add path).directories =
      path.directories ++ texts.filter (· != "") := by
  induction texts generalizing path with
  | nil => exact (List.append_nil _).symm
  | cons text rest induction =>
      rw [List.foldl_cons, induction, add]
      by_cases empty : text = ""
      · simp [empty]
      · simp [empty]

@[simp] theorem directories_addDelimited (path : SearchPath) (text : String)
    (delimiter : Char) :
    (path.addDelimited text delimiter).directories =
      path.directories ++ listed delimiter text := by
  rw [addDelimited, directories_foldl_add, listed_eq_filter]

@[simp] theorem directories_ofDelimited (text : String) (delimiter : Char) :
    (ofDelimited text delimiter).directories = listed delimiter text := by
  rw [ofDelimited, directories_addDelimited, empty, List.nil_append]

@[simp] theorem directories_prependDelimited (path : SearchPath)
    (text : String) (delimiter : Char) :
    (path.prependDelimited text delimiter).directories =
      listed delimiter text ++ path.directories := by
  rw [prependDelimited, directories_ofDelimited]

private theorem directories_foldl_prependDelimited (texts : List String)
    (path : SearchPath) (delimiter : Char) :
    (texts.foldl (fun path text => prependDelimited path text delimiter)
        path).directories =
      texts.reverse.flatMap (listed delimiter) ++ path.directories := by
  induction texts generalizing path with
  | nil => rfl
  | cons text rest induction =>
      rw [List.foldl_cons, induction, directories_prependDelimited,
        List.reverse_cons, List.flatMap_append, List.flatMap_singleton,
        List.append_assoc]

/-! ## Joining -/

inductive Made (delimiter : Char) : SearchPath → Prop
  | empty : Made delimiter .empty
  | add {path : SearchPath} (made : Made delimiter path) (text : String) :
      Made delimiter (path.addDelimited text delimiter)
  | prepend {path : SearchPath} (made : Made delimiter path) (text : String) :
      Made delimiter (path.prependDelimited text delimiter)

private theorem Made.foldl_prepend {delimiter : Char} {path : SearchPath}
    (made : Made delimiter path) (texts : List String) :
    Made delimiter (texts.foldl
      (fun path text => prependDelimited path text delimiter) path) := by
  induction texts generalizing path with
  | nil => exact made
  | cons text rest induction => exact induction (made.prepend text)

def Separable (delimiter : Char) (directories : List String) : Prop :=
  ∀ directory ∈ directories, directory ≠ "" ∧ delimiter ∉ directory.toList

variable {delimiter : Char}

private theorem separable_listed (delimiter : Char) (text : String) :
    Separable delimiter (listed delimiter text) := by
  intro directory member
  rw [listed_eq_filter] at member
  rcases List.mem_filter.mp member with ⟨segment, present⟩
  rcases List.mem_map.mp segment with ⟨characters, cut, rfl⟩
  rcases Text.exists_cutSegments (· == delimiter) text.toList with
    ⟨first, others, same, _, _, unbroken⟩
  rw [same] at cut
  refine ⟨bne_iff_ne.mp present, fun inside => ?_⟩
  rw [String.toList_ofList] at inside
  have apart := unbroken characters cut delimiter inside
  simp at apart

theorem Separable.append {first later : List String}
    (separable : Separable delimiter first)
    (separable' : Separable delimiter later) :
    Separable delimiter (first ++ later) := by
  intro directory member
  rcases List.mem_append.mp member with earlier | further
  · exact separable directory earlier
  · exact separable' directory further

private theorem Made.separable {path : SearchPath}
    (made : Made delimiter path) : Separable delimiter path.directories := by
  induction made with
  | empty => exact fun _ member => absurd member List.not_mem_nil
  | add _ text induction =>
      rw [directories_addDelimited]
      exact induction.append (separable_listed delimiter text)
  | prepend _ text induction =>
      rw [directories_prependDelimited]
      exact (separable_listed delimiter text).append induction

private theorem toList_toDelimited (path : SearchPath) (delimiter : Char) :
    (path.toDelimited delimiter).toList =
      [delimiter].intercalate (path.directories.map String.toList) := by
  rw [toDelimited, String.toList_intercalate, String.toList_singleton]

private theorem listed_toDelimited {path : SearchPath}
    (separable : Separable delimiter path.directories) :
    listed delimiter (path.toDelimited delimiter) = path.directories := by
  rw [listed, toList_toDelimited]
  by_cases none : path.directories = []
  · -- Nothing joined is one empty segment, which is not a directory.
    rw [none]
    rfl
  · have apart : ∀ segment ∈ path.directories.map String.toList,
        delimiter ∉ segment := by
      intro segment member
      rcases List.mem_map.mp member with ⟨directory, listed, rfl⟩
      exact (separable directory listed).2
    have present : ∀ segment ∈ path.directories.map String.toList,
        (!segment.isEmpty) = true := by
      intro segment member
      rcases List.mem_map.mp member with ⟨directory, listed, rfl⟩
      simpa using (separable directory listed).1
    have some : path.directories.map String.toList ≠ [] := by simpa using none
    rw [List.splitOn_intercalate delimiter apart some,
      List.filter_eq_self.mpr present, List.map_map]
    exact List.map_id'' (fun directory => String.ofList_toList) _

/-- Joined directories are listed again exactly if none of them is empty or holds
the delimiter. -/
theorem ofDelimited_toDelimited_iff {path : SearchPath} :
    ofDelimited (path.toDelimited delimiter) delimiter = path ↔
      Separable delimiter path.directories := by
  constructor
  · intro same
    rw [← same, directories_ofDelimited]
    exact separable_listed delimiter _
  · intro separable
    have same := directories_ofDelimited (path.toDelimited delimiter) delimiter
    rw [listed_toDelimited separable] at same
    exact congrArg SearchPath.mk same

end SearchPath

/-! ## The search path of a run -/

namespace Choices

private theorem made_searchPath (choices : Choices)
    (environmentPath fixedPath : String) (delimiter : Char) :
    SearchPath.Made delimiter
      (choices.searchPath environmentPath fixedPath delimiter) := by
  have start : SearchPath.Made delimiter .empty := .empty
  have chosen := start.foldl_prepend choices.withPaths
  exact (chosen.add environmentPath).add fixedPath

private theorem directories_searchPath (choices : Choices)
    (environmentPath fixedPath : String) (delimiter : Char) :
    (choices.searchPath environmentPath fixedPath delimiter).directories =
      (choices.withPaths.reverse ++ [environmentPath, fixedPath]).flatMap
        (SearchPath.listed delimiter) := by
  rw [searchPath, SearchPath.directories_addDelimited,
    SearchPath.directories_addDelimited,
    SearchPath.directories_foldl_prependDelimited]
  simp [SearchPath.empty]

end Choices

/-- What is searched are the directories that the explicit lists hold, the last
list first, then those of the environment, then the fixed ones, each list in its
own order. A search path that is made of lists with one delimiter, as this one is,
comes back if its directories are joined and listed again. -/
theorem search_path_order :
    (∀ (choices : Choices) (environment : Environment) (loader : Loader),
      let settings := choices.settings environment loader
      settings.searchPath.directories =
          (choices.withPaths.reverse ++
            [(Choices.orVariable choices.environmentPath environment
                "PKG_CONFIG_PATH").getD "",
              (Choices.orVariable choices.fixedPath environment
                "PKG_CONFIG_LIBDIR").getD Defaults.fixedPath]).flatMap
            (SearchPath.listed settings.delimiter) ∧
        SearchPath.Made settings.delimiter settings.searchPath) ∧
    ∀ (delimiter : Char) (path : SearchPath),
      SearchPath.Made delimiter path →
        SearchPath.ofDelimited (path.toDelimited delimiter) delimiter =
          path := by
  refine ⟨fun choices environment loader => ⟨?_, ?_⟩, fun delimiter path made => ?_⟩
  · exact choices.directories_searchPath _ _ _
  · exact choices.made_searchPath _ _ _
  · exact SearchPath.ofDelimited_toDelimited_iff.mpr made.separable

/-- A list is put in front of another one, which has an empty segment. -/
theorem search_path_order_prepended :
    ∃ path : SearchPath, SearchPath.Made ':' path ∧
      path.directories = ["/c", "/a", "/b", "/a"] ∧
      SearchPath.ofDelimited (path.toDelimited ':') ':' = path := by
  have made : SearchPath.Made ':'
      ((SearchPath.empty.addDelimited "/a::/b:/a" ':').prependDelimited
        "/c:" ':') :=
    (SearchPath.Made.empty.add _).prepend _
  exact ⟨_, made, by decide, search_path_order.2 ':' _ made⟩

end PkgConfig
