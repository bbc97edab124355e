import BatchExport.Proofs.Files.Tree

/-! Parents of paths. Main statements: the parent of an entry is the way to its directory, less what names nothing at the
end, and what is joined to it leads where the entries of that directory are. -/
namespace BatchExport

namespace Path

variable {path dir : String} {base l : List Piece} {name piece : Piece}

/-- Pieces that stay where they are. -/
def IsIdle (piece : Piece) : Prop := piece = [] ∨ piece = ['.']

/-- Only idle pieces are dropped. -/
theorem dropMeaningless_eq (l : List Piece) :
    ∃ dropped, l = dropped ++ dropMeaningless l ∧ ∀ piece ∈ dropped, IsIdle piece := by
  induction l with
  | nil => exact ⟨[], rfl, by simp⟩
  | cons piece before ih =>
    rw [dropMeaningless]
    split
    · exact ⟨[], rfl, by simp⟩
    · obtain ⟨dropped, heq, hidle⟩ := ih
      refine ⟨piece :: dropped, by rw [List.cons_append, ← heq], ?_⟩
      intro other hother
      rcases List.mem_cons.mp hother with rfl | hother
      · have hpiece : ¬ isMeaningful other before.isEmpty := ‹_›
        unfold IsIdle
        grind [isMeaningful]
      · exact hidle other hother

/-- The last piece that is left names something. -/
theorem dropMeaningless_eq_cons {before : List Piece} (h : dropMeaningless l = piece :: before) :
    isMeaningful piece before.isEmpty = true := by
  induction l with
  | nil => cases h
  | cons other before ih =>
    rw [dropMeaningless] at h
    split at h
    · cases h
      assumption
    · exact ih h

theorem dropMeaningless_head (h : piece ∈ (dropMeaningless l).head?) : piece ≠ [] := by
  obtain ⟨before, heq⟩ := List.head?_eq_some_iff.mp h
  have hmeaningful := dropMeaningless_eq_cons heq
  grind [isMeaningful]

/-- If nothing is left, the path has no pieces, or an empty one first. -/
theorem dropMeaningless_eq_nil (h : dropMeaningless l = []) : l = [] ∨ l.getLast? = some [] := by
  induction l with
  | nil => exact .inl rfl
  | cons piece before ih =>
    rw [dropMeaningless] at h
    split at h
    · cases h
    · have hpiece : ¬ isMeaningful piece before.isEmpty := ‹_›
      rcases ih h with rfl | hlast
      · grind [isMeaningful]
      · exact .inr (by rw [List.getLast?_cons, hlast]; rfl)

theorem isAbsolute_iff (path : String) : isAbsolute path = true ↔ ∃ piece rest, pieces path = [] :: piece :: rest := by
  rw [isAbsolute, pieces]
  cases path.toList with
  | nil => simp [Text.splitAt]
  | cons c cs =>
    obtain ⟨piece, rest, hpieces⟩ := List.exists_cons_of_ne_nil (Text.splitAt_ne_nil '/' cs)
    rw [Text.splitAt, hpieces]
    split <;> simp_all

/-- The text of a path is its pieces again, but for a slash at its end. -/
theorem pieces_above {dir : String} (hne : dir ≠ "") : pieces dir = above dir ∨ pieces dir = above dir ++ [[]] := by
  unfold above
  rw [if_neg (by simpa using hne)]
  split
  · obtain ⟨before, hdir⟩ := List.getLast?_eq_some_iff.mp ‹_›
    right
    rw [pieces, hdir, Text.splitAt_separator]
    simp [Text.splitAt]
  · exact .inl rfl

theorem above_eq_nil_iff (dir : String) : above dir = [] ↔ dir = "" := by
  refine ⟨fun h => ?_, by rintro rfl; rfl⟩
  by_cases hne : dir = ""
  · exact hne
  · rcases pieces_above hne with hpieces | hpieces
    · exact absurd (hpieces.trans h) (Text.splitAt_ne_nil '/' dir.toList)
    · have htext : List.intercalate ['/'] (pieces dir) = dir.toList := Text.intercalate_splitAt dir.toList
      rw [hpieces, h, List.nil_append, List.intercalate_singleton] at htext
      exact String.toList_eq_nil_iff.mp htext.symm

namespace EndsIn

theorem isAbsolute_iff (h : EndsIn path base name) : isAbsolute path = true ↔ base.head? = some [] := by
  rw [Path.isAbsolute_iff, h.pieces]
  have hname := h.nonempty
  cases base with
  | nil => simp
  | cons first rest => cases rest <;> simp

theorem slash_not_mem (h : EndsIn path base name) : '/' ∉ name := by
  have hmem : name ∈ Path.pieces path := by simp [h.pieces]
  exact Text.not_mem_of_mem_splitAt hmem

end EndsIn

/-- The text of the directory is the way through these pieces, less what names nothing at the end. -/
structure IsWay (dir : String) (base : List Piece) : Prop where
  pieces : ∃ dropped, base = above dir ++ dropped ∧ ∀ piece ∈ dropped, IsIdle piece
  empty : dir = "" → base = []
  absolute : isAbsolute dir = true ↔ base.head? = some []

/-- What is put together from pieces is cut into them again. -/
theorem pieces_intercalate {parts : List Piece} (hne : parts ≠ []) (hslash : ∀ piece ∈ parts, '/' ∉ piece) :
    pieces (String.ofList (List.intercalate ['/'] parts)) = parts := by
  rw [pieces, String.toList_ofList, Text.splitAt_intercalate hne, Text.flatMap_splitAt hslash]

/-- The pieces that are left name a directory, if any are. -/
private theorem isWay_intercalate {kept dropped : List Piece} (hne : kept ≠ []) (hslash : ∀ piece ∈ kept, '/' ∉ piece)
    (hlast : kept.getLast? ≠ some []) (hidle : ∀ piece ∈ dropped, IsIdle piece) :
    IsWay (String.ofList (List.intercalate ['/'] kept)) (kept ++ dropped) := by
  have hpieces := pieces_intercalate hne hslash
  have hdir : String.ofList (List.intercalate ['/'] kept) ≠ "" := by
    intro hempty
    rw [hempty] at hpieces
    rw [← hpieces] at hlast
    exact hlast rfl
  have habove : above (String.ofList (List.intercalate ['/'] kept)) = kept := by
    rcases pieces_above hdir with heq | heq
    · exact heq.symm.trans hpieces
    · rw [← hpieces, heq] at hlast
      simp at hlast
  refine ⟨⟨dropped, by rw [habove], hidle⟩, fun hempty => absurd hempty hdir, ?_⟩
  rw [Path.isAbsolute_iff, hpieces]
  cases kept with
  | nil => exact absurd rfl hne
  | cons first rest => cases rest <;> simp_all

/-- What comes before the last piece that names something tells whether the path is absolute. -/
theorem isAbsolute_of_last {last : Piece} {before : List Piece}
    (h : dropMeaningless (pieces path).reverse = last :: before) :
    isAbsolute path = true ↔ before.reverse.head? = some [] := by
  obtain ⟨dropped, hpieces, -⟩ := dropMeaningless_eq (pieces path).reverse
  have hlast : last ≠ [] := dropMeaningless_head (by rw [h]; rfl)
  rw [h, List.reverse_eq_iff, List.reverse_append, List.reverse_cons] at hpieces
  rw [Path.isAbsolute_iff, hpieces]
  cases before.reverse with
  | nil => simp [hlast]
  | cons first rest => cases rest <;> simp

private theorem parent_of_idle (habsolute : isAbsolute path = true ↔ base.head? = some [])
    (hidle : ∀ piece ∈ base, IsIdle piece) (hnone : dropMeaningless base.reverse = []) :
    IsWay (if isAbsolute path then "/" else "") base := by
  have hfirst := dropMeaningless_eq_nil hnone
  rw [List.getLast?_reverse, List.reverse_eq_nil_iff] at hfirst
  split
  · obtain ⟨rest, rfl⟩ := List.head?_eq_some_iff.mp (habsolute.mp ‹_›)
    exact ⟨⟨rest, rfl, fun piece hpiece => hidle piece (List.mem_cons_of_mem _ hpiece)⟩, by simp, by simp; rfl⟩
  · have hrelative : base.head? ≠ some [] := fun hhead => ‹¬ _› (habsolute.mpr hhead)
    obtain rfl : base = [] := hfirst.resolve_right hrelative
    exact ⟨⟨[], rfl, by simp⟩, fun _ => rfl, by simp; rfl⟩

/-- What comes before the last piece that names something is the way to the parent. -/
theorem parent_of_last {last : Piece} {before : List Piece}
    (h : dropMeaningless (pieces path).reverse = last :: before) :
    ∃ dir, Path.parent? path = some dir ∧ IsWay dir before.reverse := by
  obtain ⟨dropped, hbefore, hidle⟩ := dropMeaningless_eq before
  rw [Path.parent?]
  rw [h]
  dsimp only
  cases hkept : dropMeaningless before with
  | nil =>
    rw [hkept, List.append_nil] at hbefore
    refine ⟨_, rfl, parent_of_idle (isAbsolute_of_last h) ?_ (by rw [List.reverse_reverse, hkept])⟩
    intro piece hpiece
    exact hidle piece (hbefore ▸ List.mem_reverse.mp hpiece)
  | cons first rest =>
    refine ⟨_, rfl, ?_⟩
    rw [hbefore, hkept, List.reverse_append]
    apply isWay_intercalate
    · simp
    · intro piece hpiece
      obtain ⟨dropped', hpieces, -⟩ := dropMeaningless_eq (pieces path).reverse
      have hmem : piece ∈ (pieces path).reverse := by
        rw [hpieces, h, hbefore, hkept]
        exact List.mem_append_right _ (List.mem_cons_of_mem _ (List.mem_append_right _ (List.mem_reverse.mp hpiece)))
      exact Text.not_mem_of_mem_splitAt (List.mem_reverse.mp hmem)
    · rw [List.getLast?_reverse, List.head?_cons]
      have hfirst : first ≠ [] := dropMeaningless_head (by rw [hkept]; rfl)
      simpa using hfirst
    · intro piece hpiece
      exact hidle piece (List.mem_reverse.mp hpiece)

/-- An entry of a directory has a parent, which is the way to that directory. -/
theorem EndsIn.parent? (h : EndsIn path base name) : ∃ dir, Path.parent? path = some dir ∧ IsWay dir base := by
  obtain ⟨dir, hparent, hway⟩ := parent_of_last h.last_piece
  rw [List.reverse_reverse] at hway
  exact ⟨dir, hparent, hway⟩

/-- A name that an entry of a directory can have. -/
structure IsName (name : Piece) : Prop where
  notSlash : '/' ∉ name
  nonempty : name ≠ []
  notHere : name ≠ ['.']
  notUp : name ≠ ['.', '.']

theorem IsName.endsIn_join (h : IsName name) (dir : String) :
    EndsIn (join dir (String.ofList name)) (above dir) name :=
  Path.endsIn_join dir h.notSlash h.nonempty h.notHere h.notUp

/-- The separator of job ids makes a name of what it is in. -/
theorem IsName.of_separator (hslash : '/' ∉ name) (hseparator : '-' ∈ name) : IsName name where
  notSlash := hslash
  nonempty := by rintro rfl; simp at hseparator
  notHere := by rintro rfl; simp at hseparator
  notUp := by rintro rfl; simp at hseparator

theorem IsName.endsIn (h : IsName name) (hpieces : pieces path = base ++ [name]) : EndsIn path base name :=
  ⟨hpieces, h.nonempty, h.notHere, h.notUp⟩

theorem EndsIn.isName (h : EndsIn path base name) : IsName name :=
  ⟨h.slash_not_mem, h.nonempty, h.notHere, h.notUp⟩

theorem toList_eq_intercalate (path : String) : path.toList = List.intercalate ['/'] (pieces path) :=
  (Text.intercalate_splitAt path.toList).symm

/-- Fewer pieces make a shorter text. -/
theorem intercalate_sublist {parts parts' : List Piece} (h : parts.Sublist parts') (hne : parts ≠ []) :
    (List.intercalate ['/'] parts).Sublist (List.intercalate ['/'] parts') := by
  induction h with
  | slnil => exact absurd rfl hne
  | cons part h ih =>
    rename_i l l'
    have hmore := ih hne
    have hne' : l' ≠ [] := fun e => hne (List.sublist_nil.mp (e ▸ h))
    obtain ⟨next, rest, rfl⟩ := List.exists_cons_of_ne_nil hne'
    rw [List.intercalate_cons_cons]
    exact hmore.trans (List.sublist_append_right _ _)
  | cons_cons part h ih =>
    rename_i l l'
    cases l with
    | nil =>
      cases l' with
      | nil => exact List.Sublist.refl (List.intercalate ['/'] [part])
      | cons next rest =>
        rw [List.intercalate_singleton, List.intercalate_cons_cons, List.append_assoc]
        exact List.sublist_append_left _ _
    | cons first others =>
      have hmore := ih (by simp)
      cases l' with
      | nil => cases h
      | cons next rest =>
        rw [List.intercalate_cons_cons, List.intercalate_cons_cons]
        exact hmore.append_left _

end Path

namespace FileTree

variable {t : FileTree} {path dir shorter : String} {base dropped : List Path.Piece} {name : Path.Piece}
  {location place : Location}

theorem checkPath_ok_iff (path : String) :
    checkPath path = .ok () ↔ '\x00' ∉ path.toList ∧ path ≠ "" ∧ path.utf8ByteSize ≤ maxPath := by
  rw [checkPath]
  split
  · simp_all
  · split
    · simp_all
    · split <;> simp_all

private theorem utf8ByteSize_le_of_sublist {cs cs' : List Char} (h : cs.Sublist cs') :
    (String.ofList cs).utf8ByteSize ≤ (String.ofList cs').utf8ByteSize := by
  induction h with
  | slnil => exact Nat.le_refl _
  | cons c h ih =>
    rw [String.ofList_cons (c := c), String.utf8ByteSize_append]
    omega
  | cons_cons c h ih =>
    rw [String.ofList_cons, String.ofList_cons, String.utf8ByteSize_append, String.utf8ByteSize_append]
    omega

/-- Part of a text that can be a path can be one. -/
theorem checkPath_of_sublist (hsub : shorter.toList.Sublist path.toList) (hne : shorter ≠ "")
    (h : checkPath path = .ok ()) : checkPath shorter = .ok () := by
  obtain ⟨hnul, -, hsize⟩ := (checkPath_ok_iff path).mp h
  refine (checkPath_ok_iff shorter).mpr ⟨fun hmem => hnul (hsub.subset hmem), hne, Nat.le_trans ?_ hsize⟩
  have hbytes := utf8ByteSize_le_of_sublist hsub
  rwa [String.ofList_toList, String.ofList_toList] at hbytes

theorem walk_append {l l' : List Path.Piece} : (l ++ l').foldlM t.follow place = .ok location ↔
    ∃ next, l.foldlM t.follow place = .ok next ∧ l'.foldlM t.follow next = .ok location := by
  rw [List.foldlM_append]
  cases hfirst : l.foldlM t.follow place <;> simp [bind, Except.bind]

theorem walk_cons {piece : Path.Piece} {l : List Path.Piece} : (piece :: l).foldlM t.follow place = .ok location ↔
    ∃ next, t.follow place piece = .ok next ∧ l.foldlM t.follow next = .ok location := by
  rw [List.foldlM_cons]
  cases hfirst : t.follow place piece <;> simp [bind, Except.bind]

/-- Idle pieces lead nowhere else. -/
theorem walk_idle (hidle : ∀ piece ∈ dropped, Path.IsIdle piece) (h : dropped.foldlM t.follow place = .ok location) :
    location = place := by
  induction dropped generalizing place with
  | nil =>
    cases h
    rfl
  | cons piece dropped ih =>
    obtain ⟨next, hf, hrest⟩ := walk_cons.mp h
    obtain rfl : next = place := by
      have hpiece : Path.IsIdle piece := hidle piece List.mem_cons_self
      rw [follow] at hf
      unfold Path.IsIdle at hpiece
      grind
    exact ih (fun other hother => hidle other (List.mem_cons_of_mem _ hother)) hrest

/-- A way to a directory leads where the directory is. -/
theorem walk_way (hway : Path.IsWay dir base) (h : base.foldlM t.follow place = .ok location) :
    (Path.above dir).foldlM t.follow place = .ok location := by
  obtain ⟨dropped, rfl, hidle⟩ := hway.pieces
  obtain ⟨next, hnext, hrest⟩ := walk_append.mp h
  obtain rfl := walk_idle hidle hrest
  exact hnext

theorem locate_ok_iff (path : String) : t.locate path = .ok location ↔
    checkPath path = .ok () ∧ (Path.pieces path).foldlM t.follow (t.start path) = .ok location := by
  rw [locate]
  cases hcheck : checkPath path <;> simp [bind, Except.bind]

theorem start_join (t : FileTree) (dir : String) (hname : Path.IsName name) :
    t.start (Path.join dir (String.ofList name)) = t.start dir := by
  unfold start
  rw [Path.isAbsolute_join dir (by simpa using hname.notSlash)]

/-- What is joined to a directory leads to an entry of it. -/
theorem locate_directory (hname : Path.IsName name) (hne : dir ≠ "")
    (h : t.locate (Path.join dir (String.ofList name)) = .ok location) :
    ∃ place, t.locate dir = .ok place ∧ t.node? place = some .directory ∧ location = place ++ [String.ofList name] := by
  obtain ⟨place, hwalk, rfl, hdir⟩ := locate_ok (hname.endsIn_join dir) h
  rw [t.start_join dir hname] at hwalk
  refine ⟨place, (locate_ok_iff dir).mpr ⟨?_, ?_⟩, hdir, rfl⟩
  · refine checkPath_of_sublist ?_ hne ((locate_ok_iff _).mp h).1
    have hslash : '/' ∉ (String.ofList name).toList := by simpa using hname.notSlash
    obtain ⟨slash, htext, -⟩ := Path.toList_join dir hslash
    rw [htext]
    exact List.sublist_append_left _ _
  · rcases Path.pieces_above hne with hpieces | hpieces
    · rwa [hpieces]
    · have hidle : t.follow place [] = .ok place := by simp [follow, hdir]
      rw [hpieces, walk_append]
      exact ⟨place, hwalk, walk_cons.mpr ⟨place, hidle, rfl⟩⟩

/-- What leads to an entry leads there through the parent too. -/
theorem locate_of_way (h : Path.EndsIn path base name) (hway : Path.IsWay dir base)
    (hl : t.locate path = .ok location) : t.locate (Path.join dir (String.ofList name)) = .ok location := by
  have hjoin : Path.EndsIn (Path.join dir (String.ofList name)) (Path.above dir) name := h.isName.endsIn_join dir
  have hstart : t.start dir = t.start path := by
    unfold start
    rw [Bool.eq_iff_iff.mpr (hway.absolute.trans h.isAbsolute_iff.symm)]
  have hpath : checkPath path = .ok () := ((locate_ok_iff path).mp hl).1
  have hcheck : checkPath (Path.join dir (String.ofList name)) = .ok () := by
    obtain ⟨dropped, hbase, -⟩ := hway.pieces
    refine checkPath_of_sublist ?_ ?_ hpath
    · rw [Path.toList_eq_intercalate, Path.toList_eq_intercalate, hjoin.pieces, h.pieces, hbase]
      exact Path.intercalate_sublist ((List.sublist_append_left _ _).append_right _) (by simp)
    · intro hempty
      have hsome := hjoin.isEmpty_eq_false
      rw [hempty] at hsome
      cases hsome
  obtain ⟨place, hwalk, rfl, hdir⟩ := locate_ok h hl
  have habove := walk_way hway hwalk
  rw [locate_eq h, hpath, hwalk] at hl
  rw [locate_eq hjoin, t.start_join dir h.isName, hstart, habove, hcheck]
  exact hl

end FileTree
end BatchExport
