import BatchExport.Proofs.Files.JobScope
import BatchExport.Proofs.Files.Storage

/-! In which directories the files of a job are. Main statement: staged and restored files lie directly in their
directories, under names that start with the job id, exactly if the id has no slash and, for staged files, nothing but
dots comes after a slash in the base name. -/
namespace BatchExport

namespace Path

variable {dir : String}

/-- The path of an entry of this directory, under a name that starts so. -/
structure LiesIn (path dir lead : String) : Prop where
  parent : ∃ parent, parent? path = some parent ∧ components parent = components dir
  named : ∃ name, fileName? path = some name ∧ lead.toList <+: name.toList

/-- A lead without a slash stays in one piece, whatever follows it. -/
private theorem components_join_lead {more lead : String} {first : Piece} {rest : List Piece}
    (hseparator : '-' ∈ lead.toList) (hslash : '/' ∉ lead.toList) (hmore : pieces more = first :: rest) :
    components (join dir (lead ++ more)) = components dir ++ .name (String.ofList (lead.toList ++ first)) ::
      (rest.filter (isMeaningful · false)).map componentOf := by
  have hpieces : pieces (lead ++ more) = (lead.toList ++ first) :: rest := by
    rw [pieces, String.toList_append, Text.splitAt_of_lead hslash hmore]
  have hmem : lead.toList ++ first ∈ pieces (lead ++ more) := by
    rw [hpieces]
    exact List.mem_cons_self
  have hname : IsName (lead.toList ++ first) :=
    .of_separator (Text.not_mem_of_mem_splitAt hmem) (List.mem_append_left _ hseparator)
  have hrelative : isAbsolute (lead ++ more) = false := by
    rw [Bool.eq_false_iff, Ne, isAbsolute_iff, hpieces]
    rintro ⟨piece, others, heq⟩
    exact hname.nonempty (List.cons_eq_cons.mp heq).1
  have hcomponent : componentOf (lead.toList ++ first) = .name (String.ofList (lead.toList ++ first)) := by
    rw [componentOf, if_neg hname.notHere, if_neg hname.notUp]
  rw [components_join dir hrelative hpieces fun hidle => hidle.elim hname.nonempty hname.notHere, hcomponent]

theorem liesIn_join_iff (dir more : String) {lead : String} (hseparator : '-' ∈ lead.toList) :
    LiesIn (join dir (lead ++ more)) dir lead ↔ '/' ∉ lead.toList ∧ ∀ piece ∈ (pieces more).tail, IsIdle piece := by
  obtain ⟨first, rest, hmore⟩ := List.exists_cons_of_ne_nil (Text.splitAt_ne_nil '/' more.toList)
  have htail : (pieces more).tail = rest := by rw [pieces, hmore, List.tail_cons]
  rw [htail]
  constructor
  · rintro ⟨⟨parent, hparent, hsame⟩, name, hname, hlead⟩
    have hslash : '/' ∉ lead.toList := fun hmem => slash_not_mem_fileName hname (hlead.subset hmem)
    obtain ⟨last, -, hall⟩ := parent?_eq_some hparent
    rw [components_join_lead hseparator hslash hmore, hsame, List.append_cancel_left_eq, List.cons_eq_cons,
      List.map_eq_nil_iff] at hall
    exact ⟨hslash, filter_eq_nil_iff.mp hall.2⟩
  · rintro ⟨hslash, hidle⟩
    have hends : components (join dir _) = _ := components_join_lead hseparator hslash hmore
    rw [filter_eq_nil_iff.mpr hidle, List.map_nil] at hends
    obtain ⟨parent, hparent, hsame, hname⟩ := components_snoc_name hends
    exact ⟨⟨parent, hparent, hsame⟩, _, hname, by simp⟩

end Path

namespace Storage

variable {t t' : FileTree} {restoreDir snapshot ref lead : String} {id : JobId} {place : Location}

/-- An entry of the directory at this location, under a name that starts so. -/
def LiesAt (place : Location) (dir lead : String) (t : FileTree) : Prop :=
  ∃ at' name, home dir t = .ok at' ∧ place = at' ++ [name] ∧ lead.toList <+: name.toList

theorem restored_liesAt_iff {name : String} (hname : '/' ∉ name.toList)
    (hplace : t.locate (Path.join restoreDir (restoredName id name)) = .ok place) :
    LiesAt place restoreDir (id.text ++ WorkPath.jobIdSeparator) t ↔ '/' ∉ id.text.toList := by
  constructor
  · rintro ⟨dir, entry, -, rfl, hlead⟩ hmem
    obtain ⟨base, hends⟩ := endsIn_restored restoreDir id hname
    obtain ⟨dir', -, hsame, -⟩ := FileTree.locate_ok hends hplace
    obtain rfl := List.singleton_inj.mp (List.append_inj_right' hsame rfl)
    rw [String.toList_ofList] at hlead
    exact hends.slash_not_mem (hlead.subset (by simp [hmem]))
  · intro hid
    have hrestored : Path.IsName (restoredName id name).toList :=
      .of_separator (by simp [restoredName, hid, hname]) (by simp [restoredName])
    obtain ⟨dir, hhome, rfl⟩ := locate_join hrestored hplace
    exact ⟨dir, _, hhome, rfl, by simp [restoredName, WorkPath.jobIdSeparator]⟩

end Storage

namespace WorkPath

/-- A file name that names something has a base name without a slash. -/
theorem slash_not_mem_baseName {file name : String} (h : Path.fileName? file = some name) :
    '/' ∉ (baseName file).toList := by
  have hname := Path.slash_not_mem_fileName h
  rw [baseName, h, Option.getD_some, String.toList_ofList, withoutExtension]
  split
  · exact hname
  · rw [List.mem_reverse]
    intro hmem
    have hbefore := (List.dropWhile_sublist _).subset (List.mem_of_mem_drop hmem)
    exact hname (List.mem_reverse.mp hbefore)

/-- Where the files of a job are. A file name that names something has a base name of one piece, so that the id alone
decides; one that ends in dots is its own base name. -/
theorem job_files_lie_inside_iff (id : JobId) :
    (∀ workDir appName file, Path.LiesIn (tempPath workDir appName id file) (appDir workDir appName)
        (id.text ++ jobIdSeparator) ↔
      '/' ∉ id.text.toList ∧ ∀ piece ∈ (Path.pieces (baseName file)).tail, Path.IsIdle piece) ∧
    (∀ file name, Path.fileName? file = some name → (Path.pieces (baseName file)).tail = []) ∧
    ∀ restoreDir snapshot ref t t', (Storage.restore restoreDir id snapshot).run t = some (.ok ref, t') →
      ∃ place text, t'.locate ref = .ok place ∧ FileTree.Sets place text t t' ∧
        (Path.LiesIn ref restoreDir (id.text ++ jobIdSeparator) ↔ '/' ∉ id.text.toList) ∧
        (Storage.LiesAt place restoreDir (id.text ++ jobIdSeparator) t' ↔ '/' ∉ id.text.toList) := by
  have hseparator : '-' ∈ (id.text ++ jobIdSeparator).toList := by simp [jobIdSeparator]
  have hslash : '/' ∈ (id.text ++ jobIdSeparator).toList ↔ '/' ∈ id.text.toList := by simp [jobIdSeparator]
  have hsingle {name : String} (hname : '/' ∉ name.toList) : (Path.pieces name).tail = [] := by
    rw [Path.pieces, Text.splitAt_of_not_mem hname, List.tail_cons]
  refine ⟨fun workDir appName file => ?_, fun file name hfile => hsingle (slash_not_mem_baseName hfile), ?_⟩
  · rw [tempPath, Path.liesIn_join_iff _ _ hseparator, hslash]
  · intro restoreDir snapshot ref t t' hrun
    obtain ⟨name, text, origin, place, hfile, rfl, -, hcopies⟩ := Storage.restore_ok hrun
    have hname := Path.slash_not_mem_fileName hfile
    refine ⟨place, _, hcopies.located, hcopies.sets, ?_, Storage.restored_liesAt_iff hname hcopies.located⟩
    have hjoin := Path.liesIn_join_iff restoreDir name hseparator
    rw [hslash, hsingle hname] at hjoin
    refine Iff.trans hjoin ⟨And.left, fun hid => ⟨hid, fun piece hpiece => ?_⟩⟩
    cases hpiece

end WorkPath

namespace OtherDirectories

/-- A snapshot, which is restored from a directory of its own. -/
def tree : FileTree where
  nodes := [(["s"], .directory), (["s", "x.csv"], .file ['x'])]
  current := []

/-- A name that ends in dots is taken with its directories, and an id may lead out of the directory. -/
theorem job_files_lie_outside :
    JobId.ofText? "J1" = some ⟨"J1"⟩ ∧ JobId.ofText? "../J1" = some ⟨"../J1"⟩ ∧
      ¬ Path.LiesIn (WorkPath.tempPath "work" "ferry" ⟨"J1"⟩ "a/b/..") (WorkPath.appDir "work" "ferry") "J1-" ∧
      ∃ t, (Storage.restore "restore" ⟨"../J1"⟩ "s/x.csv").run tree = some (.ok "restore/../J1-x.csv", t) ∧
        tree.read "J1-x.csv" = .error .notFound ∧ t.read "J1-x.csv" = .ok ['x'] ∧ t.names ["restore"] = [] := by
  refine ⟨by decide, by decide, ?_, _, rfl, rfl, rfl, rfl⟩
  rintro ⟨-, name, hname, hlead⟩
  have hfile : Path.fileName? (WorkPath.tempPath "work" "ferry" ⟨"J1"⟩ "a/b/..") = some "b" := by decide +kernel
  cases hname.symm.trans hfile
  revert hlead
  decide

/-- With an id that has no slash, the same snapshot is restored into the directory. -/
theorem restored_file_lies_inside : ∃ t place,
    (Storage.restore "restore" ⟨"J1"⟩ "s/x.csv").run tree = some (.ok "restore/J1-x.csv", t) ∧
      t.locate "restore/J1-x.csv" = .ok place ∧ Path.LiesIn "restore/J1-x.csv" "restore" "J1-" ∧
      Storage.LiesAt place "restore" "J1-" t := by
  have hrun : ∃ t, (Storage.restore "restore" ⟨"J1"⟩ "s/x.csv").run tree = some (.ok "restore/J1-x.csv", t) := ⟨_, rfl⟩
  obtain ⟨t, hrun⟩ := hrun
  obtain ⟨-, -, hrestored⟩ := WorkPath.job_files_lie_inside_iff ⟨"J1"⟩
  obtain ⟨place, text, hplace, -, hpath, hlies⟩ := hrestored _ _ _ _ _ hrun
  exact ⟨t, place, hrun, hplace, hpath.mpr (by decide), hlies.mpr (by decide)⟩

end OtherDirectories
end BatchExport
