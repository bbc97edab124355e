import BatchExport.Proofs.Files.Path
import BatchExport.Files.Tree

/-! What the operations on a tree of files do. Main statements: where a path leads stays the same while directories
stay, and for each operation which files it changes. -/
namespace BatchExport.FileTree

variable {t t' t'' : FileTree} {location other : Location}

private theorem lookup_others (nodes : List (Location × FileNode)) (location other : Location) :
    (nodes.filter (·.1 ≠ location)).lookup other = if other = location then none else nodes.lookup other := by
  induction nodes with
  | nil => simp
  | cons entry nodes ih => grind

theorem node?_put (t : FileTree) (node : FileNode) (hne : location ≠ []) :
    (t.put location node).node? other = if other = location then some node else t.node? other := by
  unfold node? put
  by_cases hempty : other = []
  · subst other
    simp [Ne.symm hne]
  · have hother : ¬ other.isEmpty := by simpa using hempty
    rw [if_neg hother, if_neg hother, List.lookup_append, lookup_others]
    by_cases heq : other = location
    · simp [heq]
    · have hbeq : (other == location) = false := by simpa using heq
      simp [heq, List.lookup_cons, hbeq]

theorem node?_erase (t : FileTree) (hne : location ≠ []) :
    (t.erase location).node? other = if other = location then none else t.node? other := by
  unfold node? erase
  by_cases hempty : other = []
  · subst other
    simp [Ne.symm hne]
  · have hother : ¬ other.isEmpty := by simpa using hempty
    rw [if_neg hother, if_neg hother, lookup_others]

/-- The text of the file at a location. -/
def textAt? (t : FileTree) (location : Location) : Option (List Char) :=
  match t.node? location with
  | some (.file text) => some text
  | _ => none

theorem textAt?_eq_some {text : List Char} : t.textAt? location = some text ↔ t.node? location = some (.file text) := by
  rw [textAt?]
  cases t.node? location with
  | none => simp
  | some node => cases node <;> simp

/-- Every directory stays where it is; others may come. -/
structure Grows (t t' : FileTree) : Prop where
  current : t'.current = t.current
  directories : ∀ location, t.node? location = some .directory → t'.node? location = some .directory

theorem Grows.refl (t : FileTree) : t.Grows t := ⟨rfl, fun _ h => h⟩

theorem Grows.trans (h : t.Grows t') (h' : t'.Grows t'') : t.Grows t'' where
  current := h'.current.trans h.current
  directories location hd := h'.directories location (h.directories location hd)

theorem Grows.put {node : FileNode} (hne : location ≠ []) (h : t.node? location = some .directory → node = .directory) :
    t.Grows (t.put location node) where
  current := rfl
  directories other hd := by
    rw [node?_put t node hne]
    split
    · subst other
      rw [h hd]
    · exact hd

theorem Grows.erase (hne : location ≠ []) (h : t.node? location ≠ some .directory) : t.Grows (t.erase location) where
  current := rfl
  directories other hd := by
    rw [node?_erase t hne, if_neg, hd]
    rintro rfl
    exact h hd

section Walking

variable {path : String} {base : List Path.Piece} {name piece : Path.Piece} {dir : Location}

theorem Grows.follow (h : t.Grows t') (hf : t.follow location piece = .ok other) :
    t'.follow location piece = .ok other := by
  rw [FileTree.follow] at hf ⊢
  cases hnode : t.node? location with
  | none => simp [hnode] at hf
  | some node =>
    cases node with
    | file text => simp [hnode] at hf
    | directory =>
      rw [h.directories location hnode]
      simpa [hnode] using hf

theorem Grows.walk (h : t.Grows t') (hw : base.foldlM t.follow location = .ok other) :
    base.foldlM t'.follow location = .ok other := by
  induction base generalizing location with
  | nil => exact hw
  | cons piece base ih =>
    rw [List.foldlM_cons] at hw ⊢
    cases hf : t.follow location piece with
    | error fault => simp [hf, bind, Except.bind] at hw
    | ok next =>
      rw [h.follow hf]
      rw [hf] at hw
      exact ih hw

theorem Grows.start (h : t.Grows t') (path : String) : t'.start path = t.start path := by
  unfold FileTree.start
  rw [h.current]

/-- A suffix does not change where a path starts. -/
theorem start_suffix (t : FileTree) (path : String) {suffix : String} (h : '/' ∉ suffix.toList) :
    t.start (path ++ suffix) = t.start path := by
  unfold FileTree.start
  rw [Path.isAbsolute_suffix path h]

theorem Grows.locate (h : t.Grows t') (hl : t.locate path = .ok location) : t'.locate path = .ok location := by
  rw [FileTree.locate] at hl ⊢
  cases hc : checkPath path with
  | error fault => simp [hc, bind, Except.bind] at hl
  | ok =>
    rw [hc] at hl
    rw [h.start]
    exact h.walk hl

theorem follow_name (h : Path.EndsIn path base name) (hdir : t.node? dir = some .directory) :
    t.follow dir name = if (String.ofList name).utf8ByteSize > maxName then .error .nameTooLong
      else .ok (dir ++ [String.ofList name]) := by
  have hname : ¬ (name = [] ∨ name = ['.']) := fun e => e.elim h.nonempty h.notHere
  rw [FileTree.follow, hdir]
  simp only [if_neg hname, if_neg h.notUp]

theorem follow_ok (h : Path.EndsIn path base name) (hf : t.follow dir name = .ok location) :
    location = dir ++ [String.ofList name] ∧ t.node? dir = some .directory := by
  cases hnode : t.node? dir with
  | none => simp [FileTree.follow, hnode] at hf
  | some node =>
    cases node with
    | file text => simp [FileTree.follow, hnode] at hf
    | directory =>
      rw [follow_name h hnode] at hf
      split at hf
      · cases hf
      · cases hf
        exact ⟨rfl, rfl⟩

/-- A path to a name: the walk to its directory, and the name there. -/
theorem locate_eq (h : Path.EndsIn path base name) :
    t.locate path = (do
      checkPath path
      let dir ← base.foldlM t.follow (t.start path)
      t.follow dir name) := by
  rw [FileTree.locate]
  rw [h.pieces, List.foldlM_append]
  simp

theorem target_eq (h : Path.EndsIn path base name) :
    t.target path = (do
      checkPath path
      let dir ← base.foldlM t.follow (t.start path)
      let _ ← t.follow dir name
      return (dir, some (String.ofList name))) := by
  have hpieces : ((Path.pieces path).reverse.dropWhile (· = [])).reverse = base ++ [name] := by
    rw [h.pieces]
    simp [h.nonempty]
  rw [target]
  rw [hpieces]
  have hmatch : (base ++ [name]).getLast? = some name := by simp
  simp only [List.dropLast_concat, List.getLastD_concat, hmatch]
  have hnonempty := h.nonempty
  have hnotHere := h.notHere
  have hnotUp := h.notUp
  grind

/-- Where a path to a name leads: to an entry of a directory. -/
theorem locate_ok (h : Path.EndsIn path base name) (hl : t.locate path = .ok location) :
    ∃ dir, base.foldlM t.follow (t.start path) = .ok dir ∧ location = dir ++ [String.ofList name] ∧
      t.node? dir = some .directory := by
  rw [locate_eq h] at hl
  cases hc : checkPath path with
  | error fault => simp [hc, bind, Except.bind] at hl
  | ok =>
    cases hd : base.foldlM t.follow (t.start path) with
    | error fault => simp [hc, hd, bind, Except.bind] at hl
    | ok dir =>
      simp only [hc, hd, bind, Except.bind] at hl
      exact ⟨dir, rfl, follow_ok h hl⟩

/-- Where a path leads in a grown tree it led before, if its directory was there. -/
theorem Grows.locate_before (hg : t.Grows t') (h : Path.EndsIn path base name)
    (hwalk : base.foldlM t.follow (t.start path) = .ok dir) (hdir : t.node? dir = some .directory)
    (hl : t'.locate path = .ok location) : t.locate path = .ok location := by
  rw [locate_eq h, hg.start, hg.walk hwalk] at hl
  rw [locate_eq h, hwalk]
  cases hc : checkPath path with
  | error fault => simp [hc, bind, Except.bind] at hl
  | ok =>
    simp only [hc, bind, Except.bind] at hl ⊢
    rwa [follow_name h hdir, ← follow_name h (hg.directories dir hdir)]

theorem locate_of_target {entry : Option String} (h : Path.EndsIn path base name)
    (ht : t.target path = .ok (dir, entry)) :
    t.locate path = .ok (dir ++ [String.ofList name]) ∧ entry = some (String.ofList name) := by
  rw [target_eq h] at ht
  rw [locate_eq h]
  cases hc : checkPath path with
  | error fault => simp [hc, bind, Except.bind] at ht
  | ok =>
    cases hd : base.foldlM t.follow (t.start path) with
    | error fault => simp [hc, hd, bind, Except.bind] at ht
    | ok dir' =>
      cases hf : t.follow dir' name with
      | error fault => simp [hc, hd, hf, bind, Except.bind] at ht
      | ok location' =>
        simp only [hc, hd, hf, bind, Except.bind, pure, Except.pure, Except.ok.injEq, Prod.mk.injEq] at ht ⊢
        obtain ⟨rfl, rfl⟩ := ht
        exact ⟨(follow_ok h hf).1, rfl⟩

end Walking

/-- Files stay as they are; at most directories are made. -/
structure KeepsFiles (t t' : FileTree) : Prop extends t.Grows t' where
  texts : ∀ location, t'.textAt? location = t.textAt? location

theorem KeepsFiles.refl (t : FileTree) : t.KeepsFiles t := ⟨.refl t, fun _ => rfl⟩

theorem KeepsFiles.trans (h : t.KeepsFiles t') (h' : t'.KeepsFiles t'') : t.KeepsFiles t'' :=
  ⟨h.toGrows.trans h'.toGrows, fun location => (h'.texts location).trans (h.texts location)⟩

/-- At most one file has changed. -/
structure Touches (location : Location) (t t' : FileTree) : Prop extends t.Grows t' where
  elsewhere : ∀ other, other ≠ location → t'.textAt? other = t.textAt? other

theorem Touches.refl (location : Location) (t : FileTree) : Touches location t t := ⟨.refl t, fun _ _ => rfl⟩

theorem Touches.trans (h : Touches location t t') (h' : Touches location t' t'') : Touches location t t'' :=
  ⟨h.toGrows.trans h'.toGrows, fun other ho => (h'.elsewhere other ho).trans (h.elsewhere other ho)⟩

/-- One file has a new text, all else is as before. -/
structure Sets (location : Location) (text : List Char) (t t' : FileTree) : Prop extends Touches location t t' where
  here : t'.textAt? location = some text

theorem Sets.put {text : List Char} (hne : location ≠ []) (h : t.node? location ≠ some .directory) :
    Sets location text t (t.put location (.file text)) where
  toGrows := .put hne fun hd => absurd hd h
  here := by rw [textAt?, node?_put t _ hne, if_pos rfl]
  elsewhere other ho := by rw [textAt?, textAt?, node?_put t _ hne, if_neg ho]

theorem Touches.sets {text : List Char} (h : Touches location t t') (h' : Sets location text t' t'') :
    Sets location text t t'' where
  toTouches := h.trans h'.toTouches
  here := h'.here

theorem KeepsFiles.sets {text : List Char} (h : t.KeepsFiles t') (h' : Sets location text t' t'') :
    Sets location text t t'' where
  toGrows := h.toGrows.trans h'.toGrows
  elsewhere other ho := (h'.elsewhere other ho).trans (h.texts other)
  here := h'.here

theorem location_ne_nil {text : List Char} (h : t.textAt? location = some text) : location ≠ [] := by
  rintro rfl
  cases h

theorem not_directory {text : List Char} (h : t.textAt? location = some text) :
    t.node? location ≠ some .directory := by
  rw [textAt?_eq_some.mp h]
  simp

/-- Writing at the end of a file adds to it. -/
theorem writeAt_end {old : List Char} (h : t.textAt? location = some old) (text : List Char) :
    Sets location (old ++ text) t (t.writeAt location old.length text) := by
  have hwrite : t.writeAt location old.length text = t.put location (.file (old ++ text)) := by
    have hrest : old.drop (old.length + text.length) = [] := List.drop_eq_nil_of_le (by omega)
    rw [writeAt, textAt?_eq_some.mp h]
    simp [hrest]
  rw [hwrite]
  exact .put (location_ne_nil h) (not_directory h)

section Operations

variable {path : String} {base : List Path.Piece} {name : Path.Piece}

theorem create_ok (h : Path.EndsIn path base name) (hc : create path t = (.ok location, t')) :
    t.locate path = .ok location ∧ Sets location [] t t' := by
  rw [create] at hc
  cases ht : t.target path with
  | error fault => simp [ht] at hc
  | ok found =>
    obtain ⟨dir, entry⟩ := found
    obtain ⟨hl, rfl⟩ := locate_of_target h ht
    simp only [ht] at hc
    split at hc
    · cases hc
    · split at hc
      · cases hc
      · cases hc
        exact ⟨hl, .put (by simp) ‹_›⟩

private theorem makeDir_keeps {result : Except FileFault Unit} (h : makeDir path t = (result, t')) :
    t.KeepsFiles t' := by
  rw [makeDir] at h
  split at h
  · cases h
    exact .refl t
  · cases h
    exact .refl t
  · rename_i dir name _
    split at h
    · cases h
      exact .refl t
    · cases h
      have hne : dir ++ [name] ≠ [] := by simp
      refine ⟨.put hne fun _ => rfl, fun other => ?_⟩
      rw [textAt?, textAt?, node?_put t _ hne]
      by_cases hother : other = dir ++ [name]
      · rw [if_pos hother, hother, ‹t.node? (dir ++ [name]) = none›]
      · rw [if_neg hother]

/-- Making directories relates the trees as making one does. -/
theorem makeDirs_rel {rel : FileTree → FileTree → Prop} (hrefl : ∀ t, rel t t)
    (htrans : ∀ {t t' t''}, rel t t' → rel t' t'' → rel t t'')
    (hdir : ∀ {path t t' result}, makeDir path t = (result, t') → rel t t')
    {result : Except FileFault Unit} (h : makeDirs path t = (result, t')) : rel t t' := by
  rw [makeDirs] at h
  generalize path.length + 1 = fuel at h
  induction fuel generalizing path t t' result with
  | zero =>
    cases h
    exact hrefl t
  | succ fuel ih =>
    unfold makeDirsWithin at h
    split at h
    · cases h
      exact hrefl t
    · split at h
      · cases h
        exact hdir ‹_›
      · have hfirst := hdir ‹makeDir path t = _›
        split at h
        · cases h
          exact hfirst
        · split at h
          · cases h
            exact htrans hfirst (ih ‹_›)
          · have habove := htrans hfirst (ih ‹_›)
            split at h
            · cases h
              exact htrans habove (hdir ‹_›)
            · cases h
              exact htrans habove (hdir ‹_›)
      · cases h
        exact hdir ‹_›

theorem makeDirs_keeps {result : Except FileFault Unit} (h : makeDirs path t = (result, t')) : t.KeepsFiles t' :=
  makeDirs_rel .refl .trans makeDir_keeps h

/-- A copy has the text of its source; a file that is copied over itself is empty afterwards. -/
theorem copy_ok {source : String} (h : Path.EndsIn path base name) (hc : copy source path t = (.ok (), t')) :
    ∃ origin location text, t.locate source = .ok origin ∧ t.locate path = .ok location ∧
      t.textAt? origin = some text ∧ Sets location (if location = origin then [] else text) t t' := by
  rw [copy] at hc
  split at hc
  · cases hc
  · cases hc
  · cases hc
  · rename_i origin text horigin hstat
    have htext : t.textAt? origin = some text := by
      rw [stat] at hstat
      rw [horigin] at hstat
      rw [textAt?_eq_some]
      cases hnode : t.node? origin with
      | none => simp [hnode, bind, Except.bind] at hstat
      | some node => simpa [hnode, bind, Except.bind, pure, Except.pure] using hstat
    split at hc
    · cases hc
    · rename_i location t₁ hcreate
      obtain ⟨hlocation, hempty⟩ := create_ok h hcreate
      refine ⟨origin, location, text, horigin, hlocation, htext, ?_⟩
      by_cases hself : location = origin
      · subst origin
        rw [textAt?_eq_some.mp hempty.here] at hc
        cases hc
        rw [if_pos rfl]
        exact hempty.toTouches.sets (writeAt_end hempty.here _)
      · have hsource : t₁.textAt? origin = some text := by rw [hempty.elsewhere origin (Ne.symm hself), htext]
        rw [textAt?_eq_some.mp hsource] at hc
        cases hc
        rw [if_neg hself]
        exact hempty.toTouches.sets (writeAt_end hempty.here _)

theorem read_iff {text : List Char} (hl : t.locate path = .ok location) :
    t.read path = .ok text ↔ t.textAt? location = some text := by
  rw [read, stat]
  rw [hl, textAt?_eq_some]
  cases hnode : t.node? location with
  | none => simp [hnode, bind, Except.bind]
  | some node => cases node <;> simp [hnode, bind, Except.bind, pure, Except.pure]

theorem read_ok_iff {text : List Char} :
    t.read path = .ok text ↔ ∃ location, t.locate path = .ok location ∧ t.textAt? location = some text := by
  cases hl : t.locate path with
  | error fault => simp [read, stat, hl, bind, Except.bind]
  | ok location => simp [read_iff hl]

theorem toOption_read (hl : t.locate path = .ok location) : (t.read path).toOption = t.textAt? location := by
  cases hread : t.read path with
  | ok text => exact ((read_iff hl).mp hread).symm
  | error fault =>
    cases htext : t.textAt? location with
    | none => rfl
    | some text => cases hread.symm.trans ((read_iff hl).mpr htext)

/-- Nobody can tell whether a file is there unless its name leads somewhere. -/
theorem locate_of_exists {there : Bool} {dir : Location} (h : Path.EndsIn path base name)
    (hwalk : base.foldlM t.follow (t.start path) = .ok dir) (hdir : t.node? dir = some .directory)
    (he : t.exists? path = .ok there) : t.locate path = .ok (dir ++ [String.ofList name]) := by
  have hunknown (fault : FileFault) (hfault : t.locate path = .error fault) : fault = .notFound := by
    rw [exists?, stat] at he
    rw [hfault] at he
    cases fault <;> first | rfl | cases he
  rw [locate_eq h, hwalk] at hunknown ⊢
  cases hcheck : checkPath path with
  | error fault =>
    have hfault : fault = .notFound := hunknown fault (by rw [hcheck]; rfl)
    rw [checkPath] at hcheck
    rw [h.isEmpty_eq_false, hfault] at hcheck
    grind
  | ok =>
    simp only [hcheck, bind, Except.bind, follow_name h hdir] at hunknown ⊢
    split
    · rw [if_pos ‹_›] at hunknown
      cases hunknown _ rfl
    · rfl

theorem locate_of_there (he : t.exists? path = .ok true) : ∃ location, t.locate path = .ok location := by
  rw [exists?, stat] at he
  cases hl : t.locate path with
  | ok location => exact ⟨location, rfl⟩
  | error fault =>
    rw [hl] at he
    cases fault <;> cases he

theorem exists?_of_locate (hl : t.locate path = .ok location) : t.exists? path = .ok (t.node? location).isSome := by
  rw [exists?, stat]
  rw [hl]
  cases hnode : t.node? location with
  | none => simp [hnode, bind, Except.bind, throw, throwThe, MonadExceptOf.throw]
  | some node => simp [hnode, bind, Except.bind, pure, Except.pure]

end Operations
end BatchExport.FileTree
