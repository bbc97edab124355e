import BatchExport.Proofs.Files.Cleanup
import BatchExport.Proofs.Files.Naming
import BatchExport.Proofs.Files.Staged

/-! Whose staged files a cleanup deletes. Main statements: a file that can be read before the cleanup can be read after
it exactly if the cleanup does not take it, and the cleanup of one job takes staged files of another one exactly if
their names start with the job id, the separator and the base name of the first one. -/
namespace BatchExport

namespace Cleanup

variable {t : FileTree} {path other : String} {base : List Path.Piece} {name : Path.Piece} {location : Location}
  {text : List Char}

theorem scope?_eq_some {dir lead : String} : scope? path = some (dir, lead) ↔
    Path.parent? path = some dir ∧ dir ≠ "" ∧ Path.fileName? path = some lead ∧ Text.isBlank lead = false := by
  rw [scope?]
  cases Path.parent? path with
  | none => simp
  | some parent =>
    cases Path.fileName? path with
    | none => simp
    | some name => simp [Option.filter]; grind

/-- The cleanup of a path takes another one: its name starts like the name of the path, and in the parent of the path
it leads to the same place. -/
def Takes (path : String) (t : FileTree) (other : String) : Prop :=
  ∃ dir lead name, scope? path = some (dir, lead) ∧ Path.fileName? other = some name ∧
    Text.startsWith lead.toList name.toList ∧ t.locate (Path.join dir name) = t.locate other

theorem Takes.reaches (h : Path.EndsIn other base name) (hl : t.locate other = .ok location)
    (htext : t.textAt? location = some text) (htakes : Takes path t other) : Reaches path t location := by
  obtain ⟨dir, lead, found, hscope, hfile, hlead, hsame⟩ := htakes
  obtain rfl : String.ofList name = found := Option.some.inj (h.fileName?.symm.trans hfile)
  have hdir : dir ≠ "" := (scope?_eq_some.mp hscope).2.1
  rw [hl] at hsame
  obtain ⟨place, hplace, hnode, rfl⟩ := FileTree.locate_directory h.isName hdir hsame
  have hlist : t.list dir = .ok (t.names place) := FileTree.list_iff.mpr ⟨place, hplace, hnode, rfl⟩
  have hmem : String.ofList name ∈ t.names place := FileTree.mem_names (FileTree.textAt?_eq_some.mp htext)
  exact ⟨dir, lead, t.names place, hscope, hlist, String.ofList name, hmem, hlead, hsame⟩

theorem reaches_iff_takes (hnames : t.WellNamed) (h : Path.EndsIn other base name) (hl : t.locate other = .ok location)
    (htext : t.textAt? location = some text) : Reaches path t location ↔ Takes path t other := by
  constructor
  · rintro ⟨dir, lead, names, hscope, hlist, found, hfound, hlead, hlocate⟩
    obtain ⟨place, -, -, rfl⟩ := FileTree.list_iff.mp hlist
    have hname : Path.IsName found.toList := hnames.isName hfound
    have hjoin := hname.endsIn_join dir
    rw [String.ofList_toList] at hjoin
    obtain ⟨_, -, hat, -⟩ := FileTree.locate_ok hjoin hlocate
    obtain ⟨_, -, hat', -⟩ := FileTree.locate_ok h hl
    have hsame : [String.ofList found.toList] = [String.ofList name] := List.append_inj_right' (hat.symm.trans hat') rfl
    rw [String.ofList_toList] at hsame
    obtain rfl : found = String.ofList name := List.singleton_inj.mp hsame
    exact ⟨dir, lead, String.ofList name, hscope, h.fileName?, hlead, hlocate.trans hl.symm⟩
  · exact Takes.reaches h hl htext

/-- What can be read before a cleanup can be read after it, unless the cleanup takes it. -/
theorem read_iff_not_takes (hnames : t.WellNamed) (h : Path.EndsIn other base name) (hread : t.read other = .ok text) :
    ((run path).aftermath t).read other = .ok text ↔ ¬ Takes path t other := by
  obtain ⟨location, hl, htext⟩ := FileTree.read_ok_iff.mp hread
  have hdeletes := run_deletes path t
  rw [FileTree.read_iff (hdeletes.locate_iff.mpr hl), ← reaches_iff_takes hnames h hl htext]
  constructor
  · intro hkept hreach
    rw [hdeletes.deleted location hreach] at hkept
    cases hkept
  · intro hreach
    rw [hdeletes.others location hreach, htext]

/-- Among entries of one directory it depends on the names only. -/
theorem takes_sibling_iff {name' : Path.Piece} (hpath : Path.EndsIn path base name)
    (hother : Path.EndsIn other base name') (hblank : Text.isBlank (String.ofList name) = false)
    (hl : t.locate other = .ok location) : Takes path t other ↔ base ≠ [] ∧ name <+: name' := by
  obtain ⟨dir, hparent, hway⟩ := hpath.parent?
  have hdir : dir ≠ "" ↔ base ≠ [] := by
    obtain ⟨dropped, hbase, -⟩ := hway.pieces
    refine not_congr ⟨hway.empty, fun hnil => ?_⟩
    rw [hnil] at hbase
    exact (Path.above_eq_nil_iff dir).mp (List.append_eq_nil_iff.mp hbase.symm).1
  constructor
  · rintro ⟨dir', lead, found, hscope, hfile, hlead, -⟩
    obtain ⟨hparent', hne, hname, -⟩ := scope?_eq_some.mp hscope
    cases hparent.symm.trans hparent'
    cases hpath.fileName?.symm.trans hname
    cases hother.fileName?.symm.trans hfile
    exact ⟨hdir.mp hne, by simpa [Text.startsWith] using hlead⟩
  · rintro ⟨hbase, hprefix⟩
    have hscope := scope?_eq_some.mpr ⟨hparent, hdir.mpr hbase, hpath.fileName?, hblank⟩
    refine ⟨dir, String.ofList name, String.ofList name', hscope, hother.fileName?, by simpa [Text.startsWith], ?_⟩
    rw [hl]
    exact FileTree.locate_of_way hother hway hl

end Cleanup

namespace JobId

/-- One id goes on where the other one ends, after a separator. -/
def Continues (id other : JobId) : Prop := ∃ rest, id.text = other.text ++ WorkPath.jobIdSeparator ++ rest

/-- An id that goes on is the longer one and has a separator. -/
theorem Continues.length_lt {id other : JobId} (h : id.Continues other) : other.text.length < id.text.length := by
  obtain ⟨rest, hrest⟩ := h
  rw [hrest, String.length_append, String.length_append]
  have hseparator : WorkPath.jobIdSeparator.length = 1 := rfl
  omega

end JobId

namespace WorkPath

variable {t : FileTree} {workDir appName file otherFile suffix : String} {id other : JobId} {text : List Char}

/-- The name that the staged files of a job start with. -/
def stem (id : JobId) (file : String) : String := id.text ++ jobIdSeparator ++ baseName file

theorem separator_mem_stem (id : JobId) (file : String) : '-' ∈ (stem id file).toList := by
  simp [stem, jobIdSeparator]

theorem endsIn_tempPath (workDir appName : String) (h : '/' ∉ (stem id file).toList) :
    Path.EndsIn (tempPath workDir appName id file) (Path.above (appDir workDir appName)) (stem id file).toList := by
  have hname := Path.IsName.of_separator h (separator_mem_stem id file)
  have hends := hname.endsIn_join (appDir workDir appName)
  rwa [String.ofList_toList] at hends

theorem withSuffix_tempPath (hsuffix : '/' ∉ suffix.toList) : withSuffix (tempPath workDir appName id file) suffix =
    Path.join (appDir workDir appName) (stem id file ++ suffix) := by
  change Path.join (appDir workDir appName) (stem id file) ++ suffix = _
  unfold Path.join
  rw [Path.isAbsolute_suffix _ hsuffix]
  split
  · rfl
  · split <;> simp [String.append_assoc]

theorem endsIn_staged (h : '/' ∉ (stem id file).toList) (hsuffix : '/' ∉ suffix.toList) :
    Path.EndsIn (withSuffix (tempPath workDir appName id file) suffix) (Path.above (appDir workDir appName))
      (stem id file ++ suffix).toList := by
  have hname : Path.IsName (stem id file ++ suffix).toList := by
    apply Path.IsName.of_separator
    · rw [String.toList_append, List.mem_append, not_or]
      exact ⟨h, hsuffix⟩
    · rw [String.toList_append]
      exact List.mem_append_left _ (separator_mem_stem id file)
  have hends := hname.endsIn_join (appDir workDir appName)
  rwa [String.ofList_toList, ← withSuffix_tempPath hsuffix] at hends

theorem isBlank_stem (id : JobId) (file : String) : Text.isBlank (stem id file) = false := by
  rw [Text.isBlank, List.all_eq_false]
  exact ⟨'-', separator_mem_stem id file, by decide⟩

private theorem continues_of_prefix {id other : JobId}
    (h : id.text.toList ++ ['-'] <+: other.text.toList ++ ['-']) : id = other ∨ other.Continues id := by
  rcases List.prefix_concat_iff.mp h with heq | ⟨rest, hrest⟩
  · left
    have htext : id.text.toList = other.text.toList := List.append_cancel_right heq
    cases id
    cases other
    simpa [String.toList_inj] using htext
  · right
    refine ⟨String.ofList rest, String.toList_inj.mp ?_⟩
    simp [← hrest, jobIdSeparator]

/-- Two ids that begin one name are the same, or one goes on where the other one ends. -/
theorem eq_or_continues_of_leads {name : Path.Piece} (h : (id.text ++ jobIdSeparator).toList <+: name)
    (h' : (other.text ++ jobIdSeparator).toList <+: name) : id = other ∨ id.Continues other ∨ other.Continues id := by
  rw [String.toList_append] at h h'
  rcases List.prefix_or_prefix_of_prefix h h' with hle | hle
  · rcases continues_of_prefix hle with heq | hcontinues
    · exact .inl heq
    · exact .inr (.inr hcontinues)
  · rcases continues_of_prefix hle with heq | hcontinues
    · exact .inl heq.symm
    · exact .inr (.inl hcontinues)

theorem lead_prefix_stem (id : JobId) (file : String) : (id.text ++ jobIdSeparator).toList <+: (stem id file).toList :=
  ⟨(baseName file).toList, by simp [stem]⟩

theorem lead_prefix_staged (id : JobId) (file suffix : String) :
    (id.text ++ jobIdSeparator).toList <+: (stem id file ++ suffix).toList := by
  have hstem : (stem id file).toList <+: (stem id file ++ suffix).toList := by
    rw [String.toList_append]
    exact List.prefix_append _ _
  exact (lead_prefix_stem id file).trans hstem

/-- The same of two ids, one of which begins with its base name a name that the other one begins. -/
theorem eq_or_continues (h : (stem id file).toList <+: (stem other otherFile ++ suffix).toList) :
    id = other ∨ id.Continues other ∨ other.Continues id :=
  eq_or_continues_of_leads ((lead_prefix_stem id file).trans h)
    (lead_prefix_staged other otherFile suffix)

/-- A staged file of one job is still there after the cleanup of another one exactly if the cleanup does not take it.
Where the names have no slash, it takes what begins with its own stem; so it spares the files of every other job, unless
one id goes on where the other one ends. -/
theorem cleanup_spares_iff (id : JobId) (file : String) (hnames : t.WellNamed)
    (hsuffix : suffix = recordsSuffix ∨ suffix = errorsSuffix)
    (hstaged : t.read (withSuffix (tempPath workDir appName other otherFile) suffix) = .ok text) :
    let cleaned := (Cleanup.run (tempPath workDir appName id file)).aftermath t
    let staged := withSuffix (tempPath workDir appName other otherFile) suffix
    (cleaned.read staged = .ok text ↔ ¬ Cleanup.Takes (tempPath workDir appName id file) t staged) ∧
      ('/' ∉ (stem id file).toList → '/' ∉ (stem other otherFile).toList →
        (Cleanup.Takes (tempPath workDir appName id file) t staged ↔ appDir workDir appName ≠ "" ∧
          (stem id file).toList <+: (stem other otherFile ++ suffix).toList) ∧
        (id ≠ other → ¬ id.Continues other → ¬ other.Continues id → cleaned.read staged = .ok text)) := by
  intro cleaned staged
  have hspares : cleaned.read staged = .ok text ↔ ¬ Cleanup.Takes (tempPath workDir appName id file) t staged := by
    rcases hsuffix with rfl | rfl
    · exact Cleanup.read_iff_not_takes hnames (endsIn_records _) hstaged
    · exact Cleanup.read_iff_not_takes hnames (endsIn_errors _) hstaged
  refine ⟨hspares, fun hslash hslash' => ?_⟩
  have hsuffix' : '/' ∉ suffix.toList := by
    rcases hsuffix with rfl | rfl <;> decide
  obtain ⟨location, hl, -⟩ := FileTree.read_ok_iff.mp hstaged
  have htakes := Cleanup.takes_sibling_iff (endsIn_tempPath workDir appName hslash)
    (endsIn_staged hslash' hsuffix') (by rw [String.ofList_toList]; exact isBlank_stem id file) hl
  rw [Ne, Path.above_eq_nil_iff] at htakes
  refine ⟨htakes, fun hne hafter hbefore => hspares.mpr fun htaken => ?_⟩
  rcases eq_or_continues (htakes.mp htaken).2 with heq | hcontinues | hcontinues
  · exact hne heq
  · exact hafter hcontinues
  · exact hbefore hcontinues

end WorkPath

namespace SharedDirectory

open WorkPath (records tempPath)

/-- Three jobs have staged files in one directory. -/
def tree : FileTree where
  nodes := [(["work"], .directory), (["work", "ferry"], .directory),
    (["work", "ferry", "J1-orders.jsonl"], .file ['1']), (["work", "ferry", "J2-orders.jsonl"], .file ['2']),
    (["work", "ferry", "J1-orders-fines.jsonl"], .file ['3'])]
  current := []

/-- The id of the third job goes on where the first one ends, with the base name of the first one. -/
theorem cleanup_takes_other_job :
    tree.WellNamed ∧ (⟨"J1"⟩ : JobId) ≠ ⟨"J1-orders"⟩ ∧
      tree.read (records (tempPath "work" "ferry" ⟨"J1-orders"⟩ "fines")) = .ok ['3'] ∧
      ((Cleanup.run (tempPath "work" "ferry" ⟨"J1"⟩ "orders")).aftermath tree).read
        (records (tempPath "work" "ferry" ⟨"J1-orders"⟩ "fines")) = .error .notFound := by
  refine ⟨by decide +kernel, by decide, rfl, rfl⟩

theorem cleanup_spares_other_job :
    tree.WellNamed ∧ tree.read (records (tempPath "work" "ferry" ⟨"J2"⟩ "orders")) = .ok ['2'] ∧
      ((Cleanup.run (tempPath "work" "ferry" ⟨"J1"⟩ "orders")).aftermath tree).read
        (records (tempPath "work" "ferry" ⟨"J2"⟩ "orders")) = .ok ['2'] := by
  have hnames : tree.WellNamed := by decide +kernel
  have hstaged : tree.read (records (tempPath "work" "ferry" ⟨"J2"⟩ "orders")) = .ok ['2'] := rfl
  have hspares := WorkPath.cleanup_spares_iff ⟨"J1"⟩ "orders" hnames (.inl rfl) hstaged
  refine ⟨hnames, hstaged, (hspares.2 (by decide +kernel) (by decide +kernel)).2 (by decide) ?_ ?_⟩
  · intro hcontinues
    exact absurd hcontinues.length_lt (by decide)
  · intro hcontinues
    exact absurd hcontinues.length_lt (by decide)

end SharedDirectory
end BatchExport
