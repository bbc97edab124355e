import BatchExport.Files.Staged
import BatchExport.Proofs.Effect
import BatchExport.Proofs.Files.Tree

/-! What a writer of staged files does to a tree. Main statements: what is kept when files are made and written is kept by
the writer, and whether a file can be made depends on the directories alone. -/
namespace BatchExport

namespace FileTree

/-- A relation between a tree and what becomes of it when files are made and written. -/
structure IsKeptByWriting (rel : FileTree → FileTree → Prop) : Prop where
  refl : ∀ t, rel t t
  trans : ∀ {t t' t''}, rel t t' → rel t' t'' → rel t t''
  create : ∀ {path t t' result}, create path t = (result, t') → rel t t'
  writeAt : ∀ t location position text, rel t (writeAt location position text t)

/-- The directories are the same. -/
structure SameDirectories (t t' : FileTree) : Prop where
  current : t'.current = t.current
  directories : ∀ location, t'.node? location = some .directory ↔ t.node? location = some .directory

namespace SameDirectories

variable {t t' t'' : FileTree} {location : Location}

theorem refl (t : FileTree) : t.SameDirectories t := ⟨rfl, fun _ => Iff.rfl⟩

theorem trans (h : t.SameDirectories t') (h' : t'.SameDirectories t'') : t.SameDirectories t'' :=
  ⟨h'.current.trans h.current, fun location => (h'.directories location).trans (h.directories location)⟩

theorem grows (h : t.SameDirectories t') : t.Grows t' := ⟨h.current, fun location hd => (h.directories location).mpr hd⟩

theorem put (hne : location ≠ []) (h : t.node? location ≠ some .directory) (text : List Char) :
    t.SameDirectories (t.put location (.file text)) where
  current := rfl
  directories other := by
    rw [node?_put t _ hne]
    split
    · subst other
      simp [h]
    · exact Iff.rfl

theorem isKeptByWriting : IsKeptByWriting SameDirectories where
  refl := .refl
  trans := .trans
  create := by
    intro path t t' result h
    rw [FileTree.create] at h
    split at h
    · cases h
      exact .refl t
    · cases h
      exact .refl t
    · split at h
      · cases h
        exact .refl t
      · split at h
        · cases h
          exact .refl t
        · cases h
          exact .put (by simp) ‹_› []
  writeAt := by
    intro t location position text
    rw [FileTree.writeAt]
    split
    · rename_i old hold
      have htext : t.textAt? location = some old := textAt?_eq_some.mpr hold
      exact .put (location_ne_nil htext) (not_directory htext) _
    · exact .refl t

end SameDirectories

private theorem create_of_free {t : FileTree} {path name : String} {dir : Location}
    (ht : t.target path = .ok (dir, some name)) (h : t.node? (dir ++ [name]) ≠ some .directory) :
    (create path t).1 = if path.toList.getLast? == some '/' then .error .isDirectory else .ok (dir ++ [name]) := by
  rw [create, ht]
  dsimp only
  split
  · exact absurd ‹_› h
  · split <;> rfl

/-- Whether a file can be made in a directory, and if not why, depends on the directories alone. -/
theorem create_congr {t t' : FileTree} {path : String} {base : List Path.Piece} {name : Path.Piece} {dir : Location}
    (h : t.SameDirectories t') (hpath : Path.EndsIn path base name)
    (hwalk : base.foldlM t.follow (t.start path) = .ok dir) (hdir : t.node? dir = some .directory) :
    (create path t').1 = (create path t).1 := by
  have hwalk' : base.foldlM t'.follow (t'.start path) = .ok dir := by
    rw [h.grows.start]
    exact h.grows.walk hwalk
  have htarget : t'.target path = t.target path := by
    rw [target_eq hpath, target_eq hpath, hwalk, hwalk']
    simp only [bind, Except.bind]
    rw [follow_name hpath hdir, follow_name hpath ((h.directories dir).mpr hdir)]
  cases ht : t.target path with
  | error fault =>
    rw [create, create, htarget, ht]
  | ok found =>
    obtain ⟨place, entry⟩ := found
    cases entry with
    | none => rw [create, create, htarget, ht]
    | some name =>
      have hsame := h.directories (place ++ [name])
      by_cases hthere : t.node? (place ++ [name]) = some .directory
      · rw [create, create, htarget, ht]
        dsimp only
        rw [hthere, hsame.mpr hthere]
      · rw [create_of_free ht hthere, create_of_free (htarget.trans ht) (mt hsame.mp hthere)]

end FileTree

namespace StagedOutput

variable {rel : FileTree → FileTree → Prop} (h : FileTree.IsKeptByWriting rel)
include h

private theorem flush_rel (f : StagedFile) (t : FileTree) : rel t (f.flush t).2 :=
  h.writeAt t f.location f.position f.buffer

theorem push_rel (text : List Char) (f : StagedFile) (t : FileTree) : rel t (f.push text t).2 := by
  rw [StagedFile.push]
  by_cases hfull : StagedFile.byteSize f.buffer + StagedFile.byteSize text > StagedFile.bufferSize
  · rw [if_pos hfull]
    dsimp only
    split
    · exact h.trans (flush_rel h f t) (h.writeAt _ _ _ _)
    · exact flush_rel h f t
  · rw [if_neg hfull]
    dsimp only
    split
    · exact h.writeAt _ _ _ _
    · exact h.refl t

theorem open_keeps (path : String) : (open_ path).Keeps rel := by
  refine .bind h.trans (fun t => .ofStep ?_) fun _ => .pure h.refl _
  exact h.create rfl

theorem write_keeps (items : List Json) : (write items).Keeps fun s s' => rel s.2 s'.2 := by
  rintro ⟨o, t⟩
  refine .ofChange ?_
  dsimp only
  induction items generalizing o t with
  | nil => exact h.refl t
  | cons item items ih => exact h.trans (push_rel h (line item) o.records t) (ih _ _)

theorem writeSkipped_keeps (failure : Failure) : (writeSkipped failure).Keeps fun s s' => rel s.2 s'.2 := by
  refine .bind h.trans ?_ fun f => ?_
  · rintro ⟨o, t⟩ result ⟨o', t'⟩ hrun
    rw [errorsFile, Effect.run_ofRun] at hrun
    dsimp only at hrun
    split at hrun
    · cases hrun
      exact h.refl t
    · obtain ⟨⟨opened, t₁⟩, hopen, heq⟩ := Option.map_eq_some_iff.mp hrun
      have hopened : rel t t₁ := open_keeps h _ t _ _ hopen
      cases opened with
      | error fault =>
        cases heq
        exact hopened
      | ok f =>
        cases heq
        exact h.trans hopened (push_rel h header f t₁)
  · rintro ⟨o, t⟩
    exact .ofChange (push_rel h (row failure) f t)

theorem close_keeps : close.Keeps fun s s' => rel s.2 s'.2 := by
  rintro ⟨o, t⟩
  refine .ofChange ?_
  dsimp only
  have hrecords := flush_rel h o.records t
  rw [flush]
  dsimp only
  split
  · exact hrecords
  · exact h.trans hrecords (flush_rel h _ _)

end StagedOutput
end BatchExport
