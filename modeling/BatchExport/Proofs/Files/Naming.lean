import BatchExport.Files.Storage
import BatchExport.Proofs.Files.Cleanup
import BatchExport.Proofs.Files.Parent
import BatchExport.Proofs.Files.Writing

/-! Names in a tree of files. Main statement: no operation on a tree, no staging, no copy and no cleanup makes an entry
with a name that no path can lead to. -/
namespace BatchExport

namespace FileTree

variable {t t' : FileTree} {dir location : Location} {name path : String} {node : FileNode}

/-- Every entry has a name that a path can lead to. -/
def WellNamed (t : FileTree) : Prop := ∀ entry ∈ t.nodes, ∀ name ∈ entry.1, Path.IsName name.toList

instance (name : Path.Piece) : Decidable (Path.IsName name) :=
  decidable_of_iff ('/' ∉ name ∧ name ≠ [] ∧ name ≠ ['.'] ∧ name ≠ ['.', '.'])
    ⟨fun h => ⟨h.1, h.2.1, h.2.2.1, h.2.2.2⟩, fun h => ⟨h.notSlash, h.nonempty, h.notHere, h.notUp⟩⟩

instance (t : FileTree) : Decidable t.WellNamed :=
  inferInstanceAs (Decidable (∀ entry ∈ t.nodes, ∀ name ∈ entry.1, Path.IsName name.toList))

theorem WellNamed.isName (h : t.WellNamed) (hname : name ∈ t.names dir) : Path.IsName name.toList := by
  obtain ⟨entry, hentry, hlast⟩ := List.mem_filterMap.mp hname
  dsimp only at hlast
  split at hlast
  · exact h entry hentry name (List.mem_of_getLast? hlast)
  · cases hlast

theorem mem_nodes (hne : location ≠ []) (h : t.node? location = some node) : (location, node) ∈ t.nodes := by
  rw [node?, if_neg (by simpa using hne)] at h
  obtain ⟨before, after, hnodes, -⟩ := List.lookup_eq_some_iff.mp h
  rw [hnodes]
  simp

theorem mem_names (h : t.node? (dir ++ [name]) = some node) : name ∈ t.names dir :=
  List.mem_filterMap.mpr ⟨(dir ++ [name], node), mem_nodes (by simp) h, by simp⟩

/-- A tree in which only the way to the current directory exists, if that has such names. -/
theorem wellNamed_empty (h : ∀ name ∈ location, Path.IsName name.toList) : (empty location).WellNamed := by
  intro entry hentry name hname
  obtain ⟨n, -, rfl⟩ := List.mem_map.mp hentry
  exact h name (List.mem_of_mem_take hname)

namespace WellNamed

theorem of_node (h : t.WellNamed) (hnode : t.node? location = some node) :
    ∀ name ∈ location, Path.IsName name.toList := by
  intro name hname
  have hne : location ≠ [] := by
    rintro rfl
    cases hname
  exact h _ (mem_nodes hne hnode) name hname

theorem put (h : t.WellNamed) (hnames : ∀ name ∈ location, Path.IsName name.toList) (node : FileNode) :
    (t.put location node).WellNamed := by
  intro entry hentry
  obtain hentry | hentry := List.mem_append.mp hentry
  · exact h entry (List.mem_filter.mp hentry).1
  · cases List.mem_singleton.mp hentry
    exact hnames

theorem erase (h : t.WellNamed) (location : Location) : (t.erase location).WellNamed := by
  intro entry hentry
  exact h entry (List.mem_filter.mp hentry).1

theorem writeAt (h : t.WellNamed) (location : Location) (position : Nat) (text : List Char) :
    (t.writeAt location position text).WellNamed := by
  rw [FileTree.writeAt]
  split
  · exact h.put (h.of_node ‹_›) _
  · exact h

end WellNamed

theorem directory_of_follow {piece : Path.Piece} (hf : t.follow dir piece = .ok location) :
    t.node? dir = some .directory := by
  rw [follow] at hf
  split at hf
  · cases hf
  · cases hf
  · assumption

/-- A new entry goes to a directory, and its name is the last piece of the path but for slashes at the end. -/
theorem target_entry (ht : t.target path = .ok (dir, some name)) :
    t.node? dir = some .directory ∧
      ((Path.pieces path).reverse.dropWhile (· = [])).reverse.getLast? = some name.toList ∧ Path.IsName name.toList := by
  rw [target] at ht
  generalize hpieces : ((Path.pieces path).reverse.dropWhile (· = [])).reverse = pieces at ht
  cases hc : checkPath path with
  | error fault => simp [hc, bind, Except.bind] at ht
  | ok =>
    cases hd : pieces.dropLast.foldlM t.follow (t.start path) with
    | error fault => simp [hc, hd, bind, Except.bind] at ht
    | ok place =>
      cases hf : t.follow place (pieces.getLastD []) with
      | error fault =>
        simp only [hc, hd, hf, bind, Except.bind] at ht
        cases ht
      | ok there =>
        simp only [hc, hd, hf, bind, Except.bind, pure, Except.pure] at ht
        have hdir := directory_of_follow hf
        split at ht
        · cases ht
        · cases ht
        · cases ht
        · cases ht
        · rename_i piece hnonempty hnotHere hnotUp hlast
          cases ht
          have hmem : piece ∈ Path.pieces path := by
            have hpiece := List.mem_of_getLast? hlast
            rw [← hpieces, List.mem_reverse] at hpiece
            exact List.mem_reverse.mp ((List.dropWhile_sublist _).subset hpiece)
          rw [String.toList_ofList]
          exact ⟨hdir, hlast, Text.not_mem_of_mem_splitAt hmem, hnonempty, hnotHere, hnotUp⟩

theorem target_isName (ht : t.target path = .ok (dir, some name)) :
    t.node? dir = some .directory ∧ Path.IsName name.toList := by
  obtain ⟨hdir, -, hname⟩ := target_entry ht
  exact ⟨hdir, hname⟩

/-- A file is made only at the end of a path to a name. -/
theorem endsIn_of_create (h : create path t = (.ok location, t')) : ∃ base name, Path.EndsIn path base name := by
  rw [create] at h
  split at h
  · cases h
  · cases h
  · rename_i dir name ht
    split at h
    · cases h
    · split at h
      · cases h
      · rename_i hslash
        obtain ⟨-, hlast, hname⟩ := target_entry ht
        refine ⟨(Path.pieces path).dropLast, name.toList, hname.endsIn ?_⟩
        obtain ⟨before, last, hpieces⟩ := (List.eq_nil_or_concat (Path.pieces path)).resolve_left
          (Text.splitAt_ne_nil '/' path.toList)
        rw [List.concat_eq_append] at hpieces
        have hlastPiece : last ≠ [] := by
          rintro rfl
          have hnothing : (Text.splitAt '/' path.toList).getLast? = some [] := by
            rw [← Path.pieces, hpieces, List.getLast?_concat]
          rcases Text.getLast?_of_splitAt hnothing with hempty | hends
          · simp [Path.pieces, hempty, Text.splitAt] at hlast
          · simp [hends] at hslash
        rw [hpieces, List.reverse_append, List.reverse_singleton, List.singleton_append,
          List.dropWhile_cons_of_neg (by simpa using hlastPiece), List.reverse_cons, List.reverse_reverse,
          List.getLast?_concat, Option.some.injEq] at hlast
        rw [hpieces, hlast, List.dropLast_concat]

theorem WellNamed.put_entry (h : t.WellNamed) (ht : t.target path = .ok (dir, some name)) (node : FileNode) :
    (t.put (dir ++ [name]) node).WellNamed := by
  obtain ⟨hdir, hname⟩ := target_isName ht
  refine h.put ?_ node
  intro other hother
  obtain hother | hother := List.mem_append.mp hother
  · exact h.of_node hdir other hother
  · rwa [List.mem_singleton.mp hother]

/-- No entry with another name has come. -/
def KeepsNames (t t' : FileTree) : Prop := t.WellNamed → t'.WellNamed

theorem KeepsNames.refl (t : FileTree) : t.KeepsNames t := id

theorem KeepsNames.trans {t t' t'' : FileTree} (h : t.KeepsNames t') (h' : t'.KeepsNames t'') : t.KeepsNames t'' :=
  fun ht => h' (h ht)

theorem makeDir_keepsNames {result : Except FileFault Unit} (h : makeDir path t = (result, t')) :
    t.KeepsNames t' := by
  rw [makeDir] at h
  split at h
  · cases h
    exact .refl t
  · cases h
    exact .refl t
  · split at h
    · cases h
      exact .refl t
    · cases h
      exact fun hnames => hnames.put_entry ‹_› .directory

theorem makeDirs_keepsNames {result : Except FileFault Unit} (h : makeDirs path t = (result, t')) : t.KeepsNames t' :=
  makeDirs_rel .refl .trans makeDir_keepsNames h

theorem create_keepsNames {result : Except FileFault Location} (h : create path t = (result, t')) :
    t.KeepsNames t' := by
  rw [create] at h
  split at h
  · cases h
    exact .refl t
  · cases h
    exact .refl t
  · split at h
    · cases h
      exact .refl t
    · split at h
      · cases h
        exact .refl t
      · cases h
        exact fun hnames => hnames.put_entry ‹_› (.file [])

theorem writeAt_keepsNames (t : FileTree) (location : Location) (position : Nat) (text : List Char) :
    t.KeepsNames (t.writeAt location position text) :=
  fun hnames => hnames.writeAt location position text

private theorem keepsNames_isKeptByWriting : IsKeptByWriting KeepsNames where
  refl := .refl
  trans := .trans
  create := create_keepsNames
  writeAt := writeAt_keepsNames

theorem write_keepsNames {text : List Char} {result : Except FileFault Unit} (h : write path text t = (result, t')) :
    t.KeepsNames t' := by
  rw [write] at h
  split at h
  · cases h
    exact create_keepsNames ‹_›
  · cases h
    exact (create_keepsNames ‹_›).trans (writeAt_keepsNames _ _ _ _)

theorem copy_keepsNames {source : String} {result : Except FileFault Unit} (h : copy source path t = (result, t')) :
    t.KeepsNames t' := by
  rw [copy] at h
  split at h
  · cases h
    exact .refl t
  · cases h
    exact .refl t
  · cases h
    exact .refl t
  · split at h
    · cases h
      exact create_keepsNames ‹_›
    · have hcreated := create_keepsNames ‹create path t = _›
      split at h
      · cases h
        exact hcreated.trans (writeAt_keepsNames _ _ _ _)
      · cases h
        exact hcreated

theorem remove_keepsNames {result : Except FileFault Unit} (h : remove path t = (result, t')) : t.KeepsNames t' := by
  rw [remove] at h
  split at h
  · cases h
    exact .refl t
  · cases h
    exact .refl t
  · cases h
    exact .refl t
  · cases h
    exact fun hnames => hnames.erase _

/-- A change that keeps the names does so where it may fail a job. -/
theorem Change.keepsNames {α : Type} {change : Change α} {describe : FileFault → Failure}
    (h : ∀ {t t' result}, change t = (result, t') → t.KeepsNames t') : (change.effect describe).Keeps KeepsNames :=
  fun _ => .ofStep (h rfl)

end FileTree

namespace StagedOutput

open FileTree (KeepsNames)

theorem create_keepsNames (recordsPath errorsPath : String) : (create recordsPath errorsPath).Keeps KeepsNames := by
  rw [create]
  split
  · exact .bind .trans (FileTree.Change.keepsNames FileTree.makeDirs_keepsNames) fun _ =>
      .bind .trans (open_keeps FileTree.keepsNames_isKeptByWriting recordsPath) fun _ => .pure .refl _
  · exact .bind .trans (open_keeps FileTree.keepsNames_isKeptByWriting recordsPath) fun _ => .pure .refl _

theorem write_keepsNames (items : List Json) : (write items).Keeps fun s s' => s.2.KeepsNames s'.2 :=
  write_keeps FileTree.keepsNames_isKeptByWriting items

theorem writeSkipped_keepsNames (failure : Failure) : (writeSkipped failure).Keeps fun s s' => s.2.KeepsNames s'.2 :=
  writeSkipped_keeps FileTree.keepsNames_isKeptByWriting failure

theorem close_keepsNames : close.Keeps fun s s' => s.2.KeepsNames s'.2 :=
  close_keeps FileTree.keepsNames_isKeptByWriting

end StagedOutput

namespace Storage

open FileTree (KeepsNames)

theorem copyInto_keepsNames (source dir name : String) : (copyInto source dir name).Keeps KeepsNames :=
  .bind .trans (FileTree.Change.keepsNames FileTree.makeDirs_keepsNames) fun _ =>
    .bind .trans (FileTree.Change.keepsNames FileTree.copy_keepsNames) fun _ => .pure .refl _

theorem store_keepsNames (outputDir staged : String) : (store outputDir staged).Keeps KeepsNames := by
  refine .bind .trans ?_ fun name => copyInto_keepsNames staged outputDir name
  rw [requireFileName]
  split
  · exact .pure .refl _
  · exact .throw .refl _

end Storage

namespace Cleanup

open FileTree (KeepsNames)

private theorem deleteAll_keepsNames {dir : String} {names : List String} {report report' : CleanupReport}
    {t t' : FileTree} (h : deleteAll dir names report t = (report', t')) : t.KeepsNames t' := by
  induction names generalizing report t with
  | nil =>
    cases h
    exact .refl _
  | cons name rest ih =>
    rw [deleteAll_cons] at h
    split at h
    · exact (FileTree.remove_keepsNames ‹_›).trans (ih h)
    · exact (FileTree.remove_keepsNames ‹_›).trans (ih h)

theorem run_keepsNames (path : String) : (run path).Keeps KeepsNames := by
  intro t
  refine .ofStep ?_
  split
  · exact .refl t
  · split
    · exact .refl t
    · exact .refl t
    · rw [sweep_read_none]
      exact deleteAll_keepsNames rfl

end Cleanup
end BatchExport
