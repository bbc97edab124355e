import BatchExport.OutputFiles
import BatchExport.Proofs.Text.Blank
import BatchExport.Proofs.Text.Pieces

/-! Lists of stored files as one text. Main statements: what is read back from a list are the entries of each of its
files, and it is the list itself exactly if each file is an entry. -/
namespace BatchExport.OutputFiles

variable {files : List String} {file raw : String}

/-- A text that may stand between two separators. -/
structure IsEntry (file : String) : Prop where
  nonempty : file ≠ ""
  noSeparator : ';' ∉ file.toList
  trimmed : Text.trim file = file

theorem isEntry_of_mem_parse (h : file ∈ parse raw) : IsEntry file := by
  obtain ⟨hmem, hnonempty⟩ := List.mem_filter.mp h
  obtain ⟨piece, hpiece, rfl⟩ := List.mem_map.mp hmem
  refine ⟨by simpa using hnonempty, fun hseparator => ?_, Text.trim_eq_self_iff.mpr (Text.isTrim_trim _)⟩
  have hin : ';' ∈ piece := by simpa using (Text.trim_sublist _).subset hseparator
  exact Text.not_mem_of_mem_splitAt hpiece hin

theorem parse_of_isEntry (h : IsEntry file) : parse file = [file] := by
  rw [parse, Text.splitAt_of_not_mem h.noSeparator]
  simp [h.trimmed, h.nonempty]

/-- What is read back are the entries of each file. -/
theorem parse_join (files : List String) : parse (join files) = files.flatMap parse := by
  by_cases hne : files = []
  · subst hne
    decide
  · have htext : (join files).toList = List.intercalate [';'] (files.map String.toList) := by
      rw [join, Text.joinWith, String.toList_intercalate]
      rfl
    rw [parse, htext, Text.splitAt_intercalate (by simpa using hne), List.flatMap_map, List.map_flatMap,
      List.filter_flatMap]
    rfl

theorem flatMap_parse_eq_iff : files.flatMap parse = files ↔ ∀ file ∈ files, IsEntry file := by
  constructor
  · intro h file hfile
    rw [← h] at hfile
    obtain ⟨raw, -, hmem⟩ := List.mem_flatMap.mp hfile
    exact isEntry_of_mem_parse hmem
  · intro h
    induction files with
    | nil => rfl
    | cons file files ih =>
      have hrest := ih fun other hother => h other (List.mem_cons_of_mem _ hother)
      rw [List.flatMap_cons, parse_of_isEntry (h file List.mem_cons_self), hrest]
      rfl

end BatchExport.OutputFiles
