import BatchExport.Files.WorkPath
import BatchExport.Proofs.Text.Pieces

/-! Paths that end in a name. Main statements: a suffix changes the last piece only, and a name that is joined to a
directory becomes the last piece. -/
namespace BatchExport

namespace Path

/-- The path leads through some pieces to a last one, which is the name of an entry. -/
structure EndsIn (path : String) (base : List Piece) (name : Piece) : Prop where
  pieces : pieces path = base ++ [name]
  nonempty : name ≠ []
  notHere : name ≠ ['.']
  notUp : name ≠ ['.', '.']

namespace EndsIn

variable {path : String} {base : List Piece} {name : Piece}

theorem isEmpty_eq_false (h : EndsIn path base name) : path.isEmpty = false := by
  rw [← Bool.not_eq_true, String.isEmpty_iff]
  rintro rfl
  have hpieces : [] ++ [[]] = base ++ [name] := h.pieces
  have hname : [[]] = [name] := List.append_inj_right' hpieces rfl
  exact h.nonempty (List.singleton_inj.mp hname).symm

theorem last_piece (h : EndsIn path base name) :
    dropMeaningless (Path.pieces path).reverse = name :: base.reverse := by
  rw [h.pieces, List.reverse_append, List.reverse_singleton, List.singleton_append, dropMeaningless]
  simp [isMeaningful, h.nonempty, h.notHere]

theorem fileName? (h : EndsIn path base name) : Path.fileName? path = some (String.ofList name) := by
  have hcomponent : componentOf name = .name (String.ofList name) := by
    rw [componentOf, if_neg h.notHere, if_neg h.notUp]
  rw [Path.fileName?, last?, h.last_piece, List.head?_cons, Option.map_some, hcomponent]

end EndsIn

/-- A suffix makes a name of any last piece. -/
theorem endsIn_suffix (path : String) {suffix : String} (hslash : '/' ∉ suffix.toList) (hlength : 2 < suffix.length) :
    EndsIn (path ++ suffix) (pieces path).dropLast ((pieces path).getLastD [] ++ suffix.toList) := by
  have hlong (short : Piece) (h : short.length ≤ 2) : (pieces path).getLastD [] ++ suffix.toList ≠ short := by
    rintro rfl
    rw [List.length_append, String.length_toList] at h
    omega
  refine ⟨?_, hlong [] (by simp), hlong ['.'] (by simp), hlong ['.', '.'] (by simp)⟩
  rw [pieces, String.toList_append]
  exact Text.splitAt_append hslash path.toList

theorem isAbsolute_of_not_mem {name : String} (h : '/' ∉ name.toList) : isAbsolute name = false := by
  rw [isAbsolute]
  cases hname : name.toList with
  | nil => rfl
  | cons c cs =>
    rw [hname] at h
    have hc : c ≠ '/' := fun e => h (by simp [e])
    simpa using hc

theorem isAbsolute_suffix (path : String) {suffix : String} (h : '/' ∉ suffix.toList) :
    isAbsolute (path ++ suffix) = isAbsolute path := by
  cases hpath : path.toList with
  | nil =>
    obtain rfl : path = "" := by simpa using hpath
    rw [String.empty_append, isAbsolute_of_not_mem h]
    rfl
  | cons c cs => simp [isAbsolute, hpath]

theorem slash_not_mem_suffix (path : String) {suffix : String} (h : '/' ∉ suffix.toList) :
    '/' ∉ (pieces path).getLastD [] ++ suffix.toList := by
  have hne : pieces path ≠ [] := Text.splitAt_ne_nil '/' path.toList
  have hlast : '/' ∉ (pieces path).getLastD [] := by
    rw [List.getLastD_eq_getLast?, List.getLast?_eq_some_getLast hne]
    exact Text.not_mem_of_mem_splitAt (List.getLast_mem hne)
  rw [List.mem_append, not_or]
  exact ⟨hlast, h⟩

/-- The pieces above what is joined to a directory. -/
def above (dir : String) : List Piece :=
  if dir.isEmpty then []
  else if dir.toList.getLast? = some '/' then (pieces dir).dropLast
  else pieces dir

/-- A relative path goes on where the directory ends. -/
theorem pieces_join_relative (dir : String) {path : String} (h : isAbsolute path = false) :
    pieces (join dir path) = above dir ++ pieces path := by
  unfold join above pieces
  rw [h, Bool.false_or]
  by_cases hempty : dir.isEmpty
  · rw [if_pos hempty, if_pos hempty]
    rfl
  · rw [if_neg hempty, if_neg hempty]
    by_cases hslash : dir.toList.getLast? = some '/'
    · obtain ⟨before, hdir⟩ := List.getLast?_eq_some_iff.mp hslash
      rw [if_pos (by simpa using hslash), if_pos hslash, String.toList_append, hdir, List.append_assoc,
        List.singleton_append, Text.splitAt_separator, Text.splitAt_separator]
      simp [Text.splitAt]
    · have htext : (dir ++ "/" ++ path).toList = dir.toList ++ '/' :: path.toList := by simp
      rw [if_neg (by simpa using hslash), if_neg hslash, htext, Text.splitAt_separator]

theorem pieces_join (dir : String) {name : String} (hname : '/' ∉ name.toList) :
    pieces (join dir name) = above dir ++ [name.toList] := by
  have hself : pieces name = [name.toList] := Text.splitAt_of_not_mem hname
  rw [pieces_join_relative dir (isAbsolute_of_not_mem hname), hself]

theorem isAbsolute_join_relative (dir : String) {path : String} (h : isAbsolute path = false) :
    isAbsolute (join dir path) = isAbsolute dir := by
  rw [join]
  rw [h, Bool.false_or]
  by_cases hempty : dir.isEmpty
  · obtain rfl : dir = "" := by simpa using hempty
    rw [if_pos hempty, h]
    rfl
  · have hne : dir.toList ≠ [] := by simpa using hempty
    obtain ⟨c, cs, hdir⟩ := List.exists_cons_of_ne_nil hne
    rw [if_neg hempty]
    split <;> simp [isAbsolute, hdir]

theorem isAbsolute_join (dir : String) {name : String} (hname : '/' ∉ name.toList) :
    isAbsolute (join dir name) = isAbsolute dir :=
  isAbsolute_join_relative dir (isAbsolute_of_not_mem hname)

/-- The text of what is joined to a directory: at most a slash comes in between. -/
theorem toList_join (dir : String) {name : String} (hname : '/' ∉ name.toList) :
    ∃ slash : Piece, (join dir name).toList = dir.toList ++ (slash ++ name.toList) ∧
      (slash = [] ∨ slash = ['/'] ∧ dir ≠ "") := by
  rw [join, isAbsolute_of_not_mem hname, Bool.false_or]
  split
  · have hempty : dir.isEmpty := ‹_›
    rw [String.isEmpty_iff.mp hempty]
    exact ⟨[], rfl, .inl rfl⟩
  · have hsome : ¬ dir.isEmpty := ‹_›
    have hdir : dir ≠ "" := fun heq => hsome (String.isEmpty_iff.mpr heq)
    split
    · exact ⟨[], by simp, .inl rfl⟩
    · exact ⟨['/'], by simp, .inr ⟨rfl, hdir⟩⟩

/-- What is joined to a directory is a name in it. -/
theorem endsIn_join (dir : String) {name : Piece} (hslash : '/' ∉ name) (hnonempty : name ≠ []) (hhere : name ≠ ['.'])
    (hup : name ≠ ['.', '.']) : EndsIn (join dir (String.ofList name)) (above dir) name where
  pieces := by rw [pieces_join dir (by simpa using hslash), String.toList_ofList]
  nonempty := hnonempty
  notHere := hhere
  notUp := hup

end Path
end BatchExport
