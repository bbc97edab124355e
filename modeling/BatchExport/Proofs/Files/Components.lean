import BatchExport.Proofs.Files.Parent

/-! Paths as lists of components. Main statements: a path has the components of its parent and its last one, and a path
that is joined to a directory adds its own. -/
namespace BatchExport

namespace Path

variable {path dir : String} {piece first : Piece} {rest l : List Piece}

/-- The pieces that name something, from the last one to the first. -/
def meaningful : List Piece → List Piece
  | [] => []
  | piece :: before => if isMeaningful piece before.isEmpty then piece :: meaningful before else meaningful before

/-- What a path names on its way, its root first. -/
def components (path : String) : List Component :=
  (if isAbsolute path then [.root] else []) ++ (meaningful (pieces path).reverse).reverse.map componentOf

theorem meaningful_drop (l : List Piece) : meaningful (dropMeaningless l) = meaningful l := by
  induction l with
  | nil => rfl
  | cons piece before ih =>
    rw [dropMeaningless, meaningful]
    split
    · rw [meaningful, if_pos ‹_›]
    · exact ih

theorem isMeaningful_iff (piece : Piece) : isMeaningful piece false = true ↔ ¬ IsIdle piece := by
  simp [isMeaningful, IsIdle]

theorem isMeaningful_of_not_idle (h : ¬ IsIdle piece) (isFirst : Bool) : isMeaningful piece isFirst = true := by
  unfold IsIdle at h
  grind [isMeaningful]

/-- Below others, a piece names something unless it is idle. -/
theorem meaningful_append (l : List Piece) {below : List Piece} (hne : below ≠ []) :
    meaningful (l ++ below) = l.filter (isMeaningful · false) ++ meaningful below := by
  induction l with
  | nil => rfl
  | cons piece l ih =>
    have hsome : (l ++ below).isEmpty = false := by simp [hne]
    rw [List.cons_append, meaningful, ih, hsome, List.filter_cons]
    split <;> rfl

theorem filter_eq_nil_iff : l.filter (isMeaningful · false) = [] ↔ ∀ piece ∈ l, IsIdle piece := by
  simp [List.filter_eq_nil_iff, isMeaningful_iff]

theorem meaningful_above (dir : String) : meaningful (pieces dir).reverse = meaningful (above dir).reverse := by
  by_cases hne : dir = ""
  · subst hne
    rfl
  · have habove : (above dir).reverse ≠ [] := by simpa using mt (above_eq_nil_iff dir).mp hne
    rcases pieces_above hne with heq | heq
    · rw [heq]
    · rw [heq, List.reverse_append, meaningful_append _ habove]
      rfl

/-- A way to a directory has its components. -/
theorem IsWay.components {base : List Piece} (h : IsWay dir base) : components dir =
    (if base.head? = some [] then [.root] else []) ++ (meaningful base.reverse).reverse.map componentOf := by
  have hsame : meaningful (above dir).reverse = meaningful base.reverse := by
    obtain ⟨dropped, hbase, hidle⟩ := h.pieces
    by_cases hne : dir = ""
    · rw [h.empty hne, hne]
      rfl
    · have habove : (above dir).reverse ≠ [] := by simpa using mt (above_eq_nil_iff dir).mp hne
      rw [hbase, List.reverse_append, meaningful_append _ habove,
        filter_eq_nil_iff.mpr fun piece hpiece => hidle piece (List.mem_reverse.mp hpiece)]
      rfl
  rw [Path.components, meaningful_above, hsame]
  simp only [h.absolute]

/-- A path has the components of its parent and its last one. -/
theorem parent?_eq_some (h : parent? path = some dir) :
    ∃ last, last? path = some last ∧ components path = components dir ++ [last] := by
  cases hdrop : dropMeaningless (pieces path).reverse with
  | nil =>
    rw [parent?, hdrop] at h
    cases h
  | cons last before =>
    obtain ⟨dir', hparent, hway⟩ := parent_of_last hdrop
    cases h.symm.trans hparent
    refine ⟨componentOf last, by rw [last?, hdrop]; rfl, ?_⟩
    have hmeaningful : meaningful (pieces path).reverse = last :: meaningful before := by
      rw [← meaningful_drop, hdrop, meaningful, if_pos (dropMeaningless_eq_cons hdrop)]
    rw [hway.components, components, hmeaningful, List.reverse_reverse]
    simp [isAbsolute_of_last hdrop]

/-- A path without a parent names at most its root. -/
theorem parent?_eq_none (h : parent? path = none) : components path = [] ∨ components path = [.root] := by
  cases hdrop : dropMeaningless (pieces path).reverse with
  | nil =>
    have hnothing : meaningful (pieces path).reverse = [] := by rw [← meaningful_drop, hdrop, meaningful]
    rw [components, hnothing]
    split
    · exact .inr rfl
    · exact .inl rfl
  | cons last before =>
    obtain ⟨dir, hparent, -⟩ := parent_of_last hdrop
    cases h.symm.trans hparent

/-- A path that goes on from a directory with a name adds its components to those of the directory. -/
theorem components_join (dir : String) (hrelative : isAbsolute path = false) (hpieces : pieces path = first :: rest)
    (hfirst : ¬ IsIdle first) : components (join dir path) =
      components dir ++ componentOf first :: (rest.filter (isMeaningful · false)).map componentOf := by
  have hmeaningful : meaningful (first :: (above dir).reverse) = first :: meaningful (above dir).reverse := by
    rw [meaningful, if_pos (isMeaningful_of_not_idle hfirst _)]
  have hlist : (above dir ++ first :: rest).reverse = rest.reverse ++ first :: (above dir).reverse := by simp
  rw [components, isAbsolute_join_relative dir hrelative, pieces_join_relative dir hrelative, hpieces, hlist,
    meaningful_append _ (List.cons_ne_nil _ _), hmeaningful, components, meaningful_above]
  simp [List.filter_reverse]

theorem fileName?_eq_some {name : String} : fileName? path = some name ↔ last? path = some (.name name) := by
  rw [fileName?]
  split
  · rename_i s hlast
    rw [hlast]
    simp
  · rename_i hother
    constructor
    · intro h
      cases h
    · intro h
      exact absurd h (hother name)

/-- A path that ends in a name lies in what comes before it. -/
theorem components_snoc_name {before : List Component} {name : String} (h : components path = before ++ [.name name]) :
    ∃ dir, parent? path = some dir ∧ components dir = before ∧ fileName? path = some name := by
  cases hparent : parent? path with
  | none =>
    obtain hnone | hroot := parent?_eq_none hparent
    · simp [h] at hnone
    · have hlast := congrArg List.getLast? (h.symm.trans hroot)
      simp at hlast
  | some dir =>
    obtain ⟨last, hlast, hcomponents⟩ := parent?_eq_some hparent
    obtain ⟨hbefore, hsame⟩ := List.append_inj' (hcomponents.symm.trans h) rfl
    cases hsame
    exact ⟨dir, rfl, hbefore, fileName?_eq_some.mpr hlast⟩

/-- The piece that a file name is, with the idle pieces after it; the pieces before it are the way to the parent. -/
theorem way_of_fileName {name : String} (h : fileName? path = some name) :
    ∃ dir base dropped, parent? path = some dir ∧ IsWay dir base ∧
      (isAbsolute path = true ↔ base.head? = some []) ∧ pieces path = base ++ name.toList :: dropped ∧
      (∀ piece ∈ dropped, IsIdle piece) ∧ IsName name.toList := by
  rw [fileName?_eq_some, last?] at h
  obtain ⟨piece, hpiece, hname⟩ := Option.map_eq_some_iff.mp h
  obtain ⟨before, hdrop⟩ := List.head?_eq_some_iff.mp hpiece
  obtain ⟨dir, hparent, hway⟩ := parent_of_last hdrop
  obtain ⟨dropped, hpieces, hidle⟩ := dropMeaningless_eq (pieces path).reverse
  rw [hdrop, List.reverse_eq_iff, List.reverse_append, List.reverse_cons, List.append_assoc] at hpieces
  have hmem : piece ∈ pieces path := by simp [hpieces]
  rw [componentOf] at hname
  split at hname
  · cases hname
  · split at hname
    · cases hname
    · cases hname
      rw [String.toList_ofList]
      refine ⟨dir, before.reverse, dropped.reverse, hparent, hway, isAbsolute_of_last hdrop, hpieces, ?_, ?_⟩
      · exact fun other hother => hidle other (List.mem_reverse.mp hother)
      · exact ⟨Text.not_mem_of_mem_splitAt hmem, dropMeaningless_head hpiece, ‹_›, ‹_›⟩

theorem pieces_of_fileName {name : String} (h : fileName? path = some name) :
    ∃ base dropped, pieces path = base ++ name.toList :: dropped ∧ (∀ piece ∈ dropped, IsIdle piece) ∧
      IsName name.toList := by
  obtain ⟨-, base, dropped, -, -, -, hpieces, hidle, hname⟩ := way_of_fileName h
  exact ⟨base, dropped, hpieces, hidle, hname⟩

theorem slash_not_mem_fileName {name : String} (h : fileName? path = some name) : '/' ∉ name.toList := by
  obtain ⟨-, -, -, -, hname⟩ := pieces_of_fileName h
  exact hname.notSlash

end Path

/-- A path with a file name leads to an entry of this name. -/
theorem FileTree.locate_fileName {t : FileTree} {path name : String} {location : Location}
    (h : Path.fileName? path = some name) (hl : t.locate path = .ok location) : ∃ dir, location = dir ++ [name] := by
  obtain ⟨base, dropped, hpieces, hidle, hname⟩ := Path.pieces_of_fileName h
  have hwalk := ((locate_ok_iff path).mp hl).2
  rw [hpieces] at hwalk
  obtain ⟨dir, -, hrest⟩ := walk_append.mp hwalk
  obtain ⟨entry, hentry, hdropped⟩ := walk_cons.mp hrest
  obtain rfl := walk_idle hidle hdropped
  obtain ⟨rfl, -⟩ := follow_ok (hname.endsIn_join "") hentry
  rw [String.ofList_toList]
  exact ⟨dir, rfl⟩

end BatchExport
