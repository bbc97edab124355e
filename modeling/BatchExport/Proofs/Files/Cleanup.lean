import BatchExport.Files.Cleanup
import BatchExport.Proofs.Effect
import BatchExport.Proofs.Files.Tree

/-! Deleting files by what their names start with. Main statements: a cleanup deletes exactly the files in its reach and
no directory, and a second one deletes nothing else. -/
namespace BatchExport

namespace FileTree

variable {gone gone' : Location → Prop} {t t' t'' : FileTree} {path : String} {location : Location}

/-- Files at some locations are deleted; all else is as before. -/
structure Deletes (gone : Location → Prop) (t t' : FileTree) : Prop where
  grows : t.Grows t'
  shrinks : t'.Grows t
  names : ∀ dir, t'.names dir ⊆ t.names dir
  deleted : ∀ location, gone location → t'.textAt? location = none
  others : ∀ location, ¬ gone location → t'.textAt? location = t.textAt? location

/-- Nothing is to be deleted where no file is. -/
theorem Deletes.refl (h : ∀ location, gone location → t.textAt? location = none) : Deletes gone t t :=
  ⟨.refl t, .refl t, fun _ _ hname => hname, h, fun _ _ => rfl⟩

theorem Deletes.trans (h : Deletes gone t t') (h' : Deletes gone' t' t'') :
    Deletes (fun location => gone location ∨ gone' location) t t'' where
  grows := h.grows.trans h'.grows
  shrinks := h'.shrinks.trans h.shrinks
  names dir := List.Subset.trans (h'.names dir) (h.names dir)
  deleted location hgone := by
    by_cases hlater : gone' location
    · exact h'.deleted location hlater
    · rw [h'.others location hlater]
      exact h.deleted location (hgone.resolve_right hlater)
  others location hkept := by
    obtain ⟨hfirst, hlater⟩ := not_or.mp hkept
    exact (h'.others location hlater).trans (h.others location hfirst)

theorem Deletes.congr (h : Deletes gone t t') (heq : ∀ location, gone location ↔ gone' location) :
    Deletes gone' t t' := by
  obtain rfl : gone = gone' := funext fun location => propext (heq location)
  exact h

/-- Paths lead where they led before. -/
theorem Deletes.locate_iff (h : Deletes gone t t') : t'.locate path = .ok location ↔ t.locate path = .ok location :=
  ⟨h.shrinks.locate, h.grows.locate⟩

private theorem names_erase (dir : Location) : (t.erase location).names dir ⊆ t.names dir := by
  intro name hname
  obtain ⟨entry, hentry, hlast⟩ := List.mem_filterMap.mp hname
  exact List.mem_filterMap.mpr ⟨entry, (List.mem_filter.mp hentry).1, hlast⟩

private theorem deletes_erase {text : List Char} (h : t.textAt? location = some text) :
    Deletes (· = location) t (t.erase location) := by
  have hne := location_ne_nil h
  have hnode {other : Location} (hother : other ≠ location) : (t.erase location).node? other = t.node? other := by
    rw [node?_erase t hne, if_neg hother]
  have hgone : (t.erase location).node? location = none := by rw [node?_erase t hne, if_pos rfl]
  refine ⟨.erase hne (not_directory h), ⟨rfl, fun other hdir => ?_⟩, fun _ => names_erase _, ?_, fun other hother => ?_⟩
  · by_cases hother : other = location
    · subst hother
      cases hgone.symm.trans hdir
    · exact (hnode hother).symm.trans hdir
  · rintro _ rfl
    rw [textAt?, hgone]
  · rw [textAt?, textAt?, hnode hother]

/-- Deleting a path deletes the file to which it leads, if there is one. -/
theorem remove_deletes {result : Except FileFault Unit} (h : remove path t = (result, t')) :
    Deletes (fun location => t.locate path = .ok location) t t' := by
  rw [remove, stat] at h
  cases hl : t.locate path with
  | error fault =>
    rw [hl] at h
    cases h
    exact .refl fun _ hgone => by cases hgone
  | ok location =>
    have hhere (other : Location) :
        location = other ↔ (Except.ok location : Except FileFault Location) = .ok other := by
      simp
    rw [hl] at h
    cases hnode : t.node? location with
    | none =>
      simp only [hnode, bind, Except.bind] at h
      cases h
      exact .refl fun other hgone => by rw [textAt?, ← (hhere other).mpr hgone, hnode]
    | some node =>
      simp only [hnode, bind, Except.bind, pure, Except.pure] at h
      cases node with
      | directory =>
        cases h
        exact .refl fun other hgone => by rw [textAt?, ← (hhere other).mpr hgone, hnode]
      | file text =>
        cases h
        exact (deletes_erase (textAt?_eq_some.mpr hnode)).congr fun other => eq_comm.trans (hhere other)

theorem list_iff {names : List String} : t.list path = .ok names ↔
    ∃ dir, t.locate path = .ok dir ∧ t.node? dir = some .directory ∧ t.names dir = names := by
  rw [list, stat]
  cases hl : t.locate path with
  | error fault => simp [bind, Except.bind]
  | ok dir =>
    cases hnode : t.node? dir with
    | none => simp [hnode, bind, Except.bind, throw, throwThe, MonadExceptOf.throw]
    | some node =>
      cases node <;> simp [hnode, bind, Except.bind, pure, Except.pure, throw, throwThe, MonadExceptOf.throw]

end FileTree

namespace Cleanup

variable {path dir : String} {t t' : FileTree}

/-- Delete the entries with these names, one after the other. -/
def deleteAll (dir : String) : List String → CleanupReport → FileTree → CleanupReport × FileTree
  | [], report, t => (report, t)
  | name :: rest, report, t =>
    let path := Path.join dir name
    match FileTree.remove path t with
    | (.ok (), t) => deleteAll dir rest { report with deleted := report.deleted ++ [path] } t
    | (.error _, t) => deleteAll dir rest { report with failed := report.failed ++ [path] } t

-- The brackets keep this out of the equations that hold by computation, which take long to check.
theorem deleteAll_cons (dir name : String) (names : List String) (report : CleanupReport) (t : FileTree) :
    deleteAll dir (name :: names) report t = match FileTree.remove (Path.join dir name) t with
      | (.ok (), t) => deleteAll dir names { report with deleted := report.deleted ++ [Path.join dir name] } t
      | (.error _, t) => deleteAll dir names { report with failed := report.failed ++ [Path.join dir name] } t :=
  (rfl)

/-- The names in a directory that a cleanup is after. -/
def matching (lead : String) (names : List String) : List String :=
  names.filter fun name => Text.startsWith lead.toList name.toList

/-- As long as the reading goes on, the entries that match are deleted. -/
private theorem sweep_append (dir lead : String) (names : List String) (rest : List (Except FileFault String))
    (report : CleanupReport) (t : FileTree) : sweep dir lead (names.map .ok ++ rest) report t =
      sweep dir lead rest (deleteAll dir (matching lead names) report t).1 (deleteAll dir (matching lead names) report t).2 := by
  induction names generalizing report t with
  | nil => rfl
  | cons name names ih =>
    rw [List.map_cons, List.cons_append, sweep, matching, List.filter_cons]
    split
    · rw [deleteAll_cons]
      dsimp only
      cases FileTree.remove (Path.join dir name) t with
      | mk r t => cases r <;> exact ih _ _
    · exact ih _ _

theorem sweep_read_none (dir lead : String) (names : List String) (report : CleanupReport) (t : FileTree) :
    sweep dir lead (read names none) report t =
      (.ok (deleteAll dir (matching lead names) report t).1, (deleteAll dir (matching lead names) report t).2) := by
  have h := sweep_append dir lead names [] report t
  rw [List.append_nil] at h
  exact h

/-- What is deleted before the reading breaks off stays deleted. -/
theorem sweep_read_some (dir lead : String) (names : List String) (count : Nat) (fault : FileFault)
    (report : CleanupReport) (t : FileTree) : sweep dir lead (read names (some (count, fault))) report t =
      (.error fault, (deleteAll dir (matching lead (names.take count)) report t).2) :=
  sweep_append dir lead (names.take count) [.error fault] report t

private theorem deleteAll_deletes {names : List String} {report report' : CleanupReport}
    (h : deleteAll dir names report t = (report', t')) :
    FileTree.Deletes (fun location => ∃ name ∈ names, t.locate (Path.join dir name) = .ok location) t t' := by
  induction names generalizing t report with
  | nil =>
    cases h
    refine .refl fun location hgone => ?_
    obtain ⟨name, hname, -⟩ := hgone
    cases hname
  | cons name names ih =>
    rw [deleteAll_cons] at h
    split at h
    all_goals
      have hfirst := FileTree.remove_deletes ‹FileTree.remove _ t = _›
      apply (hfirst.trans (ih h)).congr
      intro location
      simp only [List.mem_cons, exists_eq_or_imp, hfirst.locate_iff]

/-- The files in the reach of a cleanup: those in the directory it looks into whose names start like the path. -/
def Reaches (path : String) (t : FileTree) (location : Location) : Prop :=
  ∃ dir lead names, scope? path = some (dir, lead) ∧ t.list dir = .ok names ∧
    ∃ name ∈ names, Text.startsWith lead.toList name.toList ∧ t.locate (Path.join dir name) = .ok location

theorem run_deletes (path : String) (t : FileTree) : FileTree.Deletes (Reaches path t) t ((run path).aftermath t) := by
  rw [Effect.aftermath, run]
  rw [Effect.run_ofStep]
  cases hscope : scope? path with
  | none =>
    refine .refl fun location hreach => ?_
    obtain ⟨dir, lead, names, hsome, -⟩ := hreach
    cases hscope.symm.trans hsome
  | some scope =>
    obtain ⟨dir, lead⟩ := scope
    cases hlist : t.list dir with
    | error fault =>
      have hnothing (location : Location) (hreach : Reaches path t location) : t.textAt? location = none := by
        obtain ⟨dir', lead', names, hsome, hnames, -⟩ := hreach
        cases hscope.symm.trans hsome
        cases hlist.symm.trans hnames
      simp only [hlist]
      cases fault <;> exact .refl hnothing
    | ok names =>
      simp only [hlist, sweep_read_none]
      refine (deleteAll_deletes rfl).congr fun location => ⟨fun hgone => ?_, fun hreach => ?_⟩
      · obtain ⟨name, hname, hlocate⟩ := hgone
        obtain ⟨hmem, hlead⟩ := List.mem_filter.mp hname
        exact ⟨dir, lead, names, hscope, hlist, name, hmem, hlead, hlocate⟩
      · obtain ⟨dir', lead', names', hsome, hnames, name, hmem, hlead, hlocate⟩ := hreach
        cases hscope.symm.trans hsome
        cases hlist.symm.trans hnames
        exact ⟨name, List.mem_filter.mpr ⟨hmem, hlead⟩, hlocate⟩

/-- What a second cleanup could reach, the first one could. -/
theorem Reaches.before {gone : Location → Prop} {location : Location} (h : FileTree.Deletes gone t t')
    (hreach : Reaches path t' location) : Reaches path t location := by
  obtain ⟨dir, lead, names, hscope, hlist, name, hname, hlead, hlocate⟩ := hreach
  obtain ⟨place, hdir, hnode, rfl⟩ := FileTree.list_iff.mp hlist
  have hlist' : t.list dir = .ok (t.names place) :=
    FileTree.list_iff.mpr ⟨place, h.locate_iff.mp hdir, h.shrinks.directories place hnode, rfl⟩
  exact ⟨dir, lead, t.names place, hscope, hlist', name, h.names place hname, hlead, h.locate_iff.mp hlocate⟩

theorem run_again (h : FileTree.Deletes (Reaches path t) t t') :
    FileTree.Deletes (Reaches path t) t ((run path).aftermath t') := by
  apply (h.trans (run_deletes path t')).congr
  intro location
  exact ⟨fun hgone => hgone.elim id fun hreach => hreach.before h, .inl⟩

end Cleanup
end BatchExport
