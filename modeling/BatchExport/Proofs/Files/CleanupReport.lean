import BatchExport.Proofs.Files.JobScope
import Mathlib.Data.List.Nodup

/-! What a cleanup reports and what it leaves. Main statement: a cleanup that comes to a report has deleted exactly the
files in the parent of its path whose names start like the name of the path, it reports just these and the directories
with such names, and a second one reports the same directories. One whose reading of the directory breaks off has deleted
such files among the entries that it has read. -/
namespace BatchExport

namespace FileTree

variable {t : FileTree} {dir path name : String} {place location : Location} {gone : List Location}

/-- Every location comes once. -/
def ListsOnce (t : FileTree) : Prop := (t.nodes.map (·.1)).Nodup

instance (t : FileTree) : Decidable t.ListsOnce := inferInstanceAs (Decidable (List.Nodup _))

theorem listsOnce_empty (current : Location) : (empty current).ListsOnce := by
  rw [ListsOnce, empty, List.map_map]
  refine List.Nodup.map_on (fun n hn m hm heq => ?_) List.nodup_range
  have hlengths := congrArg List.length heq
  simp only [Function.comp_apply, List.length_take] at hlengths
  have hn' := List.mem_range.mp hn
  have hm' := List.mem_range.mp hm
  omega

namespace ListsOnce

theorem filter (h : t.ListsOnce) (stays : Location × FileNode → Bool) :
    ListsOnce { t with nodes := t.nodes.filter stays } :=
  List.Nodup.sublist (List.filter_sublist.map _) h

theorem erase (h : t.ListsOnce) (location : Location) : (t.erase location).ListsOnce := h.filter _

theorem put (h : t.ListsOnce) (location : Location) (node : FileNode) : (t.put location node).ListsOnce := by
  rw [ListsOnce, FileTree.put, List.map_append]
  refine List.Nodup.append (h.erase location) (List.nodup_singleton _) (List.disjoint_singleton.mpr fun hmem => ?_)
  obtain ⟨entry, hentry, hlocation⟩ := List.mem_map.mp hmem
  have hne := (List.mem_filter.mp hentry).2
  exact of_decide_eq_true hne hlocation

end ListsOnce

/-- The name of an entry of a directory. -/
def entryName? (place location : Location) : Option String :=
  if location.dropLast = place then location.getLast? else none

theorem entryName?_eq_some : entryName? place location = some name ↔ location = place ++ [name] := by
  constructor
  · intro h
    rw [entryName?] at h
    split at h
    · obtain ⟨above, rfl⟩ := List.getLast?_eq_some_iff.mp h
      rw [← ‹List.dropLast _ = place›, List.dropLast_concat]
    · cases h
  · rintro rfl
    rw [entryName?, List.dropLast_concat, if_pos rfl, List.getLast?_concat]

theorem names_eq (t : FileTree) (place : Location) :
    t.names place = t.nodes.filterMap fun entry => entryName? place entry.1 := rfl

theorem mem_names_iff : name ∈ t.names place ↔ (t.node? (place ++ [name])).isSome := by
  constructor
  · intro h
    obtain ⟨entry, hentry, hname⟩ := List.mem_filterMap.mp h
    rw [node?, if_neg (by simp), List.lookup_isSome_iff]
    exact ⟨entry, hentry, beq_iff_eq.mpr (entryName?_eq_some.mp hname).symm⟩
  · intro h
    obtain ⟨node, hnode⟩ := Option.isSome_iff_exists.mp h
    exact mem_names hnode

theorem ListsOnce.names_nodup (h : t.ListsOnce) (place : Location) : (t.names place).Nodup := by
  have hnames : t.names place = (t.nodes.map (·.1)).filterMap (entryName? place) := by
    rw [names_eq, List.filterMap_map]
    rfl
  rw [hnames]
  refine List.Nodup.filterMap (fun location other name hlocation hother => ?_) h
  rw [entryName?_eq_some.mp hlocation, entryName?_eq_some.mp hother]

/-- Everything but what is at these locations. -/
def without (t : FileTree) (gone : List Location) : FileTree := { t with nodes := t.nodes.filter (·.1 ∉ gone) }

theorem without_nil (t : FileTree) : t.without [] = t := by
  rw [without]
  simp only [List.not_mem_nil, not_false_eq_true, decide_true]
  rw [List.filter_eq_self.mpr fun _ _ => rfl]

theorem without_cons (t : FileTree) (location : Location) (gone : List Location) :
    t.without (location :: gone) = (t.erase location).without gone := by
  have hsame (entry : Location × FileNode) : decide (entry.1 ∉ location :: gone) =
      (decide (entry.1 ∉ gone) && decide (entry.1 ≠ location)) := by
    rw [Bool.and_comm]
    simp
  rw [without, without, erase, List.filter_filter, List.filter_congr fun entry _ => hsame entry]

theorem node?_without (h : [] ∉ gone) :
    (t.without gone).node? location = if location ∈ gone then none else t.node? location := by
  induction gone generalizing t with
  | nil => rw [without_nil, if_neg List.not_mem_nil]
  | cons first gone ih =>
    obtain ⟨hfirst, hgone⟩ := not_or.mp (fun hmem => h (List.mem_cons.mpr hmem))
    rw [without_cons, ih hgone, node?_erase t (Ne.symm hfirst)]
    by_cases hlocation : location = first
    · simp [hlocation]
    · simp [hlocation]

theorem names_without (t : FileTree) (place : Location) (names : List String) :
    (t.without (names.map fun name => place ++ [name])).names place = (t.names place).filter (· ∉ names) := by
  rw [names_eq, names_eq, without, List.filter_filterMap, List.filterMap_filter]
  congr 1
  funext ⟨location, node⟩
  cases hname : entryName? place location with
  | none => simp
  | some name =>
    obtain rfl := entryName?_eq_some.mp hname
    simp [Option.filter]

/-- What is joined to a directory leads to an entry of it, if anywhere. -/
theorem locate_entry (hdir : dir ≠ "") (hplace : t.locate dir = .ok place) (hname : Path.IsName name.toList)
    (hl : t.locate (Path.join dir name) = .ok location) : location = place ++ [name] := by
  rw [← String.ofList_toList (s := name)] at hl
  obtain ⟨place', hplace', -, rfl⟩ := locate_directory hname hdir hl
  cases hplace.symm.trans hplace'
  rw [String.ofList_toList]

theorem locate_of_remove (hdir : dir ≠ "") (hplace : t.locate dir = .ok place) (hname : Path.IsName name.toList)
    (h : (remove (Path.join dir name) t).1 = .ok ()) : t.locate (Path.join dir name) = .ok (place ++ [name]) := by
  cases hl : t.locate (Path.join dir name) with
  | ok location => rw [locate_entry hdir hplace hname hl]
  | error fault =>
    rw [remove, hl] at h
    cases h

/-- Is there a file under the name in the directory? -/
def isFile (t : FileTree) (place : Location) (name : String) : Bool := (t.textAt? (place ++ [name])).isSome

theorem isFile_iff : t.isFile place name = true ↔ ∃ text, t.node? (place ++ [name]) = some (.file text) := by
  rw [isFile, Option.isSome_iff_exists]
  simp only [textAt?_eq_some]

theorem remove_file (hl : t.locate path = .ok location) (hfile : (t.textAt? location).isSome) :
    remove path t = (.ok (), t.erase location) := by
  obtain ⟨text, htext⟩ := Option.isSome_iff_exists.mp hfile
  rw [remove, stat, hl]
  simp [textAt?_eq_some.mp htext, bind, Except.bind, pure, Except.pure]

theorem remove_other (h : ∀ location, t.locate path = .ok location → t.textAt? location = none) :
    ∃ fault, remove path t = (.error fault, t) := by
  rw [remove, stat]
  cases hl : t.locate path with
  | error fault => exact ⟨fault, rfl⟩
  | ok location =>
    have htext := h location hl
    rw [textAt?] at htext
    cases hnode : t.node? location with
    | none => exact ⟨.notFound, by simp [hnode, bind, Except.bind, throw, throwThe, MonadExceptOf.throw]⟩
    | some node =>
      cases node with
      | directory => exact ⟨.isDirectory, by simp [hnode, bind, Except.bind, pure, Except.pure]⟩
      | file text =>
        rw [hnode] at htext
        cases htext

end FileTree

namespace Cleanup

open FileTree (isFile)

variable {t : FileTree} {path dir lead : String} {place : Location} {names : List String}

section Steps

variable {name : String} {report : CleanupReport}

theorem deleteAll_deleted {t' : FileTree} (h : FileTree.remove (Path.join dir name) t = (.ok (), t')) :
    deleteAll dir (name :: names) report t =
      deleteAll dir names { report with deleted := report.deleted ++ [Path.join dir name] } t' := by
  rw [deleteAll_cons, h]

theorem deleteAll_failed {fault : FileFault} (h : FileTree.remove (Path.join dir name) t = (.error fault, t)) :
    deleteAll dir (name :: names) report t =
      deleteAll dir names { report with failed := report.failed ++ [Path.join dir name] } t := by
  rw [deleteAll_cons, h]

end Steps

/-- Each file in turn is deleted, and all else is left and reported as a failure. -/
theorem deleteAll_eq (hdir : dir ≠ "") (hplace : t.locate dir = .ok place)
    (hnames : ∀ name ∈ names, Path.IsName name.toList) (honce : names.Nodup)
    (hfiles : ∀ name ∈ names, t.isFile place name → t.locate (Path.join dir name) = .ok (place ++ [name]))
    (report : CleanupReport) :
    deleteAll dir names report t =
      (⟨report.deleted ++ (names.filter (t.isFile place)).map (Path.join dir),
        report.failed ++ (names.filter fun name => !t.isFile place name).map (Path.join dir)⟩,
      t.without ((names.filter (t.isFile place)).map fun name => place ++ [name])) := by
  induction names generalizing t report with
  | nil =>
    simp only [List.filter_nil, List.map_nil, List.append_nil, FileTree.without_nil]
    rfl
  | cons name names ih =>
    obtain ⟨hnew, honce⟩ := List.nodup_cons.mp honce
    have hother {other : String} (hmem : other ∈ names) : other ∈ name :: names := List.mem_cons_of_mem _ hmem
    cases hfile : t.isFile place name with
    | true =>
      have hgone : (place ++ [name] : Location) ≠ [] := by simp
      have hl := hfiles name List.mem_cons_self hfile
      have hgrows : t.Grows (t.erase (place ++ [name])) := by
        refine .erase hgone ?_
        obtain ⟨text, htext⟩ := Option.isSome_iff_exists.mp hfile
        exact FileTree.not_directory htext
      -- The names that are left are as before: none of them comes twice.
      have hsame : ∀ other ∈ names, (t.erase (place ++ [name])).isFile place other = t.isFile place other := by
        intro other hmem
        have hne : other ≠ name := fun h => hnew (h ▸ hmem)
        rw [isFile, isFile, FileTree.textAt?, FileTree.node?_erase t hgone, if_neg (by simpa using hne), FileTree.textAt?]
      rw [deleteAll_deleted (FileTree.remove_file hl hfile),
        ih (hgrows.locate hplace) (fun other hmem => hnames other (hother hmem)) honce fun other hmem hfile' =>
          hgrows.locate (hfiles other (hother hmem) ((hsame other hmem).symm.trans hfile')),
        List.filter_congr hsame, List.filter_congr fun other hmem => congrArg not (hsame other hmem),
        ← FileTree.without_cons]
      simp only [List.filter_cons, hfile, if_true, Bool.not_true, Bool.false_eq_true, if_false, List.map_cons,
        List.append_assoc, List.singleton_append]
    | false =>
      have hnothing (location : Location) (hl : t.locate (Path.join dir name) = .ok location) :
          t.textAt? location = none := by
        rw [FileTree.locate_entry hdir hplace (hnames name List.mem_cons_self) hl]
        exact Option.isNone_iff_eq_none.mp (Option.isSome_eq_false_iff.mp hfile)
      obtain ⟨fault, hremove⟩ := FileTree.remove_other hnothing
      rw [deleteAll_failed hremove,
        ih hplace (fun other hmem => hnames other (hother hmem)) honce fun other hmem => hfiles other (hother hmem)]
      simp only [List.filter_cons, hfile, if_true, Bool.not_false, Bool.false_eq_true, if_false, List.map_cons,
        List.append_assoc, List.singleton_append]

/-- The directory of a path and the name at its end, if a cleanup can use them. -/
def LooksFor (path dir lead : String) : Prop :=
  Path.parent? path = some dir ∧ dir ≠ "" ∧ Path.fileName? path = some lead ∧ Text.isBlank lead = false

/-- The names in a directory that a cleanup comes across. -/
def found (t : FileTree) (place : Location) (lead : String) : List String := matching lead (t.names place)

def foundFiles (t : FileTree) (place : Location) (lead : String) : List String :=
  (found t place lead).filter (t.isFile place)

def foundDirectories (t : FileTree) (place : Location) (lead : String) : List String :=
  (found t place lead).filter fun name => !t.isFile place name

theorem mem_matching {name : String} : name ∈ matching lead names ↔ lead.toList <+: name.toList ∧ name ∈ names := by
  rw [matching, List.mem_filter, Text.startsWith, List.isPrefixOf_iff_prefix, and_comm]

theorem mem_found {name : String} :
    name ∈ found t place lead ↔ lead.toList <+: name.toList ∧ (t.node? (place ++ [name])).isSome := by
  rw [found, mem_matching, FileTree.mem_names_iff]

theorem mem_foundFiles {name : String} : name ∈ foundFiles t place lead ↔
    lead.toList <+: name.toList ∧ ∃ text, t.node? (place ++ [name]) = some (.file text) := by
  rw [foundFiles, List.mem_filter, mem_found, FileTree.isFile_iff]
  constructor
  · rintro ⟨⟨hlead, -⟩, hfile⟩
    exact ⟨hlead, hfile⟩
  · rintro ⟨hlead, text, hfile⟩
    exact ⟨⟨hlead, by rw [hfile]; rfl⟩, text, hfile⟩

theorem mem_foundDirectories {name : String} : name ∈ foundDirectories t place lead ↔
    lead.toList <+: name.toList ∧ t.node? (place ++ [name]) = some .directory := by
  rw [foundDirectories, List.mem_filter, mem_found, isFile, FileTree.textAt?]
  cases t.node? (place ++ [name]) with
  | none => simp
  | some node => cases node <;> simp

/-- What a cleanup that finds its directory does to the tree and what it reports. -/
structure Sweeps (dir lead : String) (place : Location) (t : FileTree) (report : CleanupReport) (t' : FileTree) : Prop where
  current : t'.current = t.current
  deletes : ∀ name text, lead.toList <+: name.toList → t.node? (place ++ [name]) = some (.file text) →
    t'.node? (place ++ [name]) = none
  keeps : ∀ location,
    (∀ name text, location = place ++ [name] → lead.toList <+: name.toList → t.node? location ≠ some (.file text)) →
      t'.node? location = t.node? location
  deleted : report.deleted.Nodup ∧ ∀ path, path ∈ report.deleted ↔
    ∃ name text, path = Path.join dir name ∧ lead.toList <+: name.toList ∧ t.node? (place ++ [name]) = some (.file text)
  failed : report.failed.Nodup ∧ ∀ path, path ∈ report.failed ↔
    ∃ name, path = Path.join dir name ∧ lead.toList <+: name.toList ∧ t.node? (place ++ [name]) = some .directory

/-- What a cleanup does to the tree that has read these entries of its directory. -/
structure Clears (lead : String) (place : Location) (read : List String) (t t' : FileTree) : Prop where
  current : t'.current = t.current
  deletes : ∀ name text, name ∈ read → lead.toList <+: name.toList → t.node? (place ++ [name]) = some (.file text) →
    t'.node? (place ++ [name]) = none
  keeps : ∀ location, (∀ name text, location = place ++ [name] → name ∈ read → lead.toList <+: name.toList →
    t.node? location ≠ some (.file text)) → t'.node? location = t.node? location

/-- What a cleanup comes to, if its reading of the directory may break off like this. -/
inductive ComesTo (path : String) (broken : Option (Nat × FileFault)) (t : FileTree) :
    Except Failure CleanupReport → FileTree → Prop
  | idle (h : ∀ dir lead, ¬ LooksFor path dir lead) : ComesTo path broken t (.ok {}) t
  | missing {dir lead : String} (h : LooksFor path dir lead) (list : t.list dir = .error .notFound) :
    ComesTo path broken t (.ok {}) t
  | unlisted {dir lead : String} {fault : FileFault} (h : LooksFor path dir lead) (list : t.list dir = .error fault)
    (other : fault ≠ .notFound) :
    ComesTo path broken t (.error (.cleanup ("Cannot list " ++ dir ++ ": " ++ fault.message))) t
  | brokeOff {dir lead : String} {place : Location} {count : Nat} {fault : FileFault} {t' : FileTree}
    (h : LooksFor path dir lead) (leads : t.locate dir = .ok place) (directory : t.node? place = some .directory)
    (breaks : broken = some (count, fault)) (clears : Clears lead place ((t.names place).take count) t t') :
    ComesTo path broken t (.error (.cleanup ("Cannot list " ++ dir ++ ": " ++ fault.message))) t'
  | swept {dir lead : String} {place : Location} {report : CleanupReport} {t' : FileTree} (h : LooksFor path dir lead)
    (leads : t.locate dir = .ok place) (directory : t.node? place = some .directory) (whole : broken = none)
    (sweeps : Sweeps dir lead place t report t') : ComesTo path broken t (.ok report) t'

/-- No file that a cleanup comes across resists. -/
def CanDelete (path : String) (t : FileTree) : Prop :=
  ∀ dir lead place name text, LooksFor path dir lead → t.locate dir = .ok place → lead.toList <+: name.toList →
    t.node? (place ++ [name]) = some (.file text) → (FileTree.remove (Path.join dir name) t).1 = .ok ()

theorem run_of_directory (h : LooksFor path dir lead) (hplace : t.locate dir = .ok place)
    (hnode : t.node? place = some .directory) (broken : Option (Nat × FileFault)) : (run path broken).run t =
      some ((sweep dir lead (read (t.names place) broken) {} t).1.mapError (cannotList dir),
        (sweep dir lead (read (t.names place) broken) {} t).2) := by
  have hlist : t.list dir = .ok (t.names place) := FileTree.list_iff.mpr ⟨place, hplace, hnode, rfl⟩
  rw [run, Effect.run_ofStep, scope?_eq_some.mpr h]
  simp only [hlist]

/-- The directory is there, and every file that a cleanup comes across can be deleted. -/
structure IsSetFor (path dir lead : String) (place : Location) (t : FileTree) : Prop where
  looksFor : LooksFor path dir lead
  leads : t.locate dir = .ok place
  directory : t.node? place = some .directory
  wellNamed : t.WellNamed
  listsOnce : t.ListsOnce
  files : ∀ name ∈ foundFiles t place lead, t.locate (Path.join dir name) = .ok (place ++ [name])

/-- Without the files that match among these entries. -/
theorem clears_without (t : FileTree) (place : Location) (lead : String) (names : List String) :
    Clears lead place names t
      (t.without (((matching lead names).filter (t.isFile place)).map fun name => place ++ [name])) where
  current := rfl
  deletes name text hname hlead hfile := by
    rw [FileTree.node?_without (by simp), if_pos]
    refine List.mem_map.mpr ⟨name, List.mem_filter.mpr ⟨mem_matching.mpr ⟨hlead, hname⟩, ?_⟩, rfl⟩
    exact FileTree.isFile_iff.mpr ⟨text, hfile⟩
  keeps location hkept := by
    rw [FileTree.node?_without (by simp), if_neg]
    intro hgone
    obtain ⟨name, hname, rfl⟩ := List.mem_map.mp hgone
    obtain ⟨hmatch, hfile⟩ := List.mem_filter.mp hname
    obtain ⟨hlead, hread⟩ := mem_matching.mp hmatch
    obtain ⟨text, htext⟩ := FileTree.isFile_iff.mp hfile
    exact hkept name text rfl hread hlead htext

/-- The tree after a cleanup. -/
def swept (t : FileTree) (place : Location) (lead : String) : FileTree :=
  t.without ((foundFiles t place lead).map fun name => place ++ [name])

theorem node?_swept (t : FileTree) (place location : Location) (lead : String) : (swept t place lead).node? location =
    if ∃ name ∈ foundFiles t place lead, place ++ [name] = location then none else t.node? location := by
  rw [swept, FileTree.node?_without (by simp)]
  simp only [List.mem_map]

theorem grows_swept (t : FileTree) (place : Location) (lead : String) : t.Grows (swept t place lead) where
  current := rfl
  directories location hdirectory := by
    rw [node?_swept, if_neg, hdirectory]
    rintro ⟨name, hname, rfl⟩
    obtain ⟨-, text, hfile⟩ := mem_foundFiles.mp hname
    cases hfile.symm.trans hdirectory

/-- Only directories are left to come across. -/
theorem found_swept (t : FileTree) (place : Location) (lead : String) :
    found (swept t place lead) place lead = foundDirectories t place lead := by
  rw [found, swept, FileTree.names_without, matching, List.filter_filter, foundDirectories, found, matching,
    List.filter_filter]
  refine List.filter_congr fun name hname => ?_
  have hgone : name ∈ foundFiles t place lead ↔
      Text.startsWith lead.toList name.toList = true ∧ t.isFile place name = true := by
    rw [foundFiles, List.mem_filter, found, matching, List.mem_filter, and_iff_right hname]
  rw [Bool.eq_iff_iff]
  simp only [Bool.and_eq_true, decide_eq_true_eq, Bool.not_eq_true', hgone]
  grind

theorem isFile_swept {name : String} (h : name ∈ foundDirectories t place lead) :
    (swept t place lead).isFile place name = false := by
  obtain ⟨-, hdirectory⟩ := mem_foundDirectories.mp h
  rw [isFile, FileTree.textAt?, (grows_swept t place lead).directories _ hdirectory]
  rfl

theorem foundFiles_swept (t : FileTree) (place : Location) (lead : String) :
    foundFiles (swept t place lead) place lead = [] := by
  rw [foundFiles, found_swept, List.filter_eq_nil_iff]
  intro name hname
  rw [isFile_swept hname]
  exact Bool.false_ne_true

theorem foundDirectories_swept (t : FileTree) (place : Location) (lead : String) :
    foundDirectories (swept t place lead) place lead = foundDirectories t place lead := by
  rw [foundDirectories, found_swept, List.filter_eq_self]
  intro name hname
  rw [isFile_swept hname]
  rfl

theorem swept_swept (t : FileTree) (place : Location) (lead : String) :
    swept (swept t place lead) place lead = swept t place lead := by
  rw [swept, foundFiles_swept, List.map_nil, FileTree.without_nil]

namespace IsSetFor

variable (h : IsSetFor path dir lead place t)

include h

theorem isName {name : String} (hname : name ∈ found t place lead) : Path.IsName name.toList :=
  h.wellNamed.isName (List.mem_filter.mp hname).1

/-- Different names make different paths. -/
theorem nodup_map (chosen : String → Bool) : (((found t place lead).filter chosen).map (Path.join dir)).Nodup := by
  refine List.Nodup.map_on (fun name hname other hother heq => ?_) (((h.listsOnce.names_nodup place).filter _).filter _)
  have hpieces := congrArg Path.pieces heq
  rw [Path.pieces_join dir (h.isName (List.mem_filter.mp hname).1).notSlash,
    Path.pieces_join dir (h.isName (List.mem_filter.mp hother).1).notSlash] at hpieces
  exact String.toList_injective (List.singleton_inj.mp (List.append_cancel_left hpieces))

theorem run_eq : (run path).run t =
    some (.ok ⟨(foundFiles t place lead).map (Path.join dir), (foundDirectories t place lead).map (Path.join dir)⟩,
      swept t place lead) := by
  have honce : (found t place lead).Nodup := (h.listsOnce.names_nodup place).filter _
  have hfiles (name : String) (hname : name ∈ found t place lead) (hfile : t.isFile place name) :=
    h.files name (List.mem_filter.mpr ⟨hname, hfile⟩)
  rw [run_of_directory h.looksFor h.leads h.directory, sweep_read_none, ← found,
    deleteAll_eq h.looksFor.2.1 h.leads (fun name => h.isName) honce hfiles]
  simp only [List.nil_append]
  rfl

/-- The files that match among the entries read so far are gone, and no report is given. -/
theorem run_broken (count : Nat) (fault : FileFault) : ∃ t',
    (run path (some (count, fault))).run t = some (.error (cannotList dir fault), t') ∧
      Clears lead place ((t.names place).take count) t t' := by
  have honce : (matching lead ((t.names place).take count)).Nodup :=
    ((h.listsOnce.names_nodup place).sublist (List.take_sublist count _)).filter _
  have hfound {name : String} (hname : name ∈ matching lead ((t.names place).take count)) : name ∈ found t place lead := by
    obtain ⟨hlead, hread⟩ := mem_matching.mp hname
    exact mem_matching.mpr ⟨hlead, List.mem_of_mem_take hread⟩
  have hfiles (name : String) (hname : name ∈ matching lead ((t.names place).take count)) (hfile : t.isFile place name) :=
    h.files name (List.mem_filter.mpr ⟨hfound hname, hfile⟩)
  refine ⟨_, ?_, clears_without t place lead _⟩
  rw [run_of_directory h.looksFor h.leads h.directory, sweep_read_some,
    deleteAll_eq h.looksFor.2.1 h.leads (fun name hname => h.isName (hfound hname)) honce hfiles]
  rfl

theorem again : IsSetFor path dir lead place (swept t place lead) where
  looksFor := h.looksFor
  leads := (grows_swept t place lead).locate h.leads
  directory := (grows_swept t place lead).directories place h.directory
  wellNamed entry hentry := h.wellNamed entry (List.mem_filter.mp hentry).1
  listsOnce := h.listsOnce.filter _
  files name hname := by
    rw [foundFiles_swept] at hname
    cases hname

theorem sweeps : Sweeps dir lead place t
    ⟨(foundFiles t place lead).map (Path.join dir), (foundDirectories t place lead).map (Path.join dir)⟩
    (swept t place lead) where
  current := rfl
  deletes name text hlead hfile :=
    (clears_without t place lead (t.names place)).deletes name text (FileTree.mem_names hfile) hlead hfile
  keeps location hkept := (clears_without t place lead (t.names place)).keeps location
    fun name text heq _ hlead => hkept name text heq hlead
  deleted := by
    refine ⟨h.nodup_map _, fun path => ?_⟩
    simp only [List.mem_map, mem_foundFiles]
    constructor
    · rintro ⟨name, ⟨hlead, text, hfile⟩, rfl⟩
      exact ⟨name, text, rfl, hlead, hfile⟩
    · rintro ⟨name, text, rfl, hlead, hfile⟩
      exact ⟨name, ⟨hlead, text, hfile⟩, rfl⟩
  failed := by
    refine ⟨h.nodup_map _, fun path => ?_⟩
    simp only [List.mem_map, mem_foundDirectories]
    constructor
    · rintro ⟨name, hname, rfl⟩
      exact ⟨name, rfl, hname⟩
    · rintro ⟨name, rfl, hname⟩
      exact ⟨name, hname, rfl⟩

end IsSetFor

/-- What a cleanup comes to, for every path and every tree, and wherever the reading of the directory breaks off. -/
theorem run_comesTo (broken : Option (Nat × FileFault)) (hnames : t.WellNamed) (honce : t.ListsOnce)
    (hdelete : CanDelete path t) :
    ∃ r t', (run path broken).run t = some (r, t') ∧ ComesTo path broken t r t' ∧
      ∀ report, r = .ok report → (run path).run t' = some (.ok ⟨[], report.failed⟩, t') := by
  cases hscope : scope? path with
  | none =>
    have hrun (broken : Option (Nat × FileFault)) : (run path broken).run t = some (.ok {}, t) := by
      rw [run, Effect.run_ofStep, hscope]
    refine ⟨_, _, hrun broken, .idle fun dir lead h => ?_, ?_⟩
    · cases hscope.symm.trans (scope?_eq_some.mpr h)
    · rintro _ ⟨⟩
      exact hrun none
  | some scope =>
    obtain ⟨dir, lead⟩ := scope
    have hlooks : LooksFor path dir lead := scope?_eq_some.mp hscope
    cases hlist : t.list dir with
    | error fault =>
      by_cases hmissing : fault = .notFound
      · subst hmissing
        have hrun (broken : Option (Nat × FileFault)) : (run path broken).run t = some (.ok {}, t) := by
          rw [run, Effect.run_ofStep, hscope]
          simp only [hlist]
        refine ⟨_, _, hrun broken, .missing hlooks hlist, ?_⟩
        rintro _ ⟨⟩
        exact hrun none
      · refine ⟨_, t, ?_, .unlisted hlooks hlist hmissing, by rintro _ ⟨⟩⟩
        rw [run, Effect.run_ofStep, hscope]
        simp only [hlist, cannotList]
    | ok names =>
      obtain ⟨place, hplace, hnode, -⟩ := FileTree.list_iff.mp hlist
      have hset : IsSetFor path dir lead place t := by
        refine ⟨hlooks, hplace, hnode, hnames, honce, fun name hname => ?_⟩
        obtain ⟨hlead, text, hfile⟩ := mem_foundFiles.mp hname
        have hisName : Path.IsName name.toList := hnames.isName (FileTree.mem_names hfile)
        exact FileTree.locate_of_remove hlooks.2.1 hplace hisName (hdelete dir lead place name text hlooks hplace hlead hfile)
      cases broken with
      | none =>
        refine ⟨_, _, hset.run_eq, .swept hlooks hplace hnode rfl hset.sweeps, ?_⟩
        rintro _ ⟨⟩
        rw [hset.again.run_eq, foundFiles_swept, foundDirectories_swept, swept_swept]
        rfl
      | some stop =>
        obtain ⟨t', hrun, hclears⟩ := hset.run_broken stop.1 stop.2
        exact ⟨_, t', hrun, .brokeOff hlooks hplace hnode rfl hclears, by rintro _ ⟨⟩⟩

end Cleanup

namespace LeftDirectory

/-- One file in reach of the cleanup, and a directory with a file in it. -/
def tree : FileTree where
  nodes := [(["w"], .directory), (["w", "a-1"], .file ['x']), (["w", "b"], .file []), (["w", "a-2"], .directory),
    (["w", "a-2", "a-3"], .file ['y'])]
  current := []

private theorem canDelete : Cleanup.CanDelete "w/a" tree := by
  intro dir lead place name text hlooks hplace hlead hfile
  have hscope : Cleanup.scope? "w/a" = some ("w", "a") := by decide
  cases hscope.symm.trans (Cleanup.scope?_eq_some.mpr hlooks)
  have hwork : tree.locate "w" = .ok ["w"] := rfl
  cases hwork.symm.trans hplace
  have hmem := FileTree.mem_nodes (by simp) hfile
  obtain ⟨rfl, -⟩ | ⟨rfl, -⟩ : name = "a-1" ∧ text = ['x'] ∨ name = "b" ∧ text = [] := by simpa [tree] using hmem
  · rfl
  · rfl

theorem directory_is_left : tree.WellNamed ∧ tree.ListsOnce ∧ Cleanup.CanDelete "w/a" tree ∧ ∃ t',
    (Cleanup.run "w/a").run tree = some (.ok ⟨["w/a-1"], ["w/a-2"]⟩, t') ∧
    Cleanup.ComesTo "w/a" none tree (.ok ⟨["w/a-1"], ["w/a-2"]⟩) t' ∧
    (Cleanup.run "w/a").run t' = some (.ok ⟨[], ["w/a-2"]⟩, t') := by
  have hnames : tree.WellNamed := by decide
  have honce : tree.ListsOnce := by decide
  obtain ⟨r, t', hrun, hcomes, hagain⟩ := Cleanup.run_comesTo none hnames honce canDelete
  obtain rfl : r = .ok ⟨["w/a-1"], ["w/a-2"]⟩ := by
    have hcomputed : ∃ t, (Cleanup.run "w/a").run tree = some (.ok ⟨["w/a-1"], ["w/a-2"]⟩, t) := ⟨_, rfl⟩
    obtain ⟨t, ht⟩ := hcomputed
    cases hrun.symm.trans ht
    rfl
  exact ⟨hnames, honce, canDelete, t', hrun, hcomes, hagain _ rfl⟩

/-- A file whose name begins with a blank. -/
def blank : FileTree := tree.put ["w", " a"] (.file ['x'])

/-- The reading breaks off after two entries, when one file is gone already. A name of blanks is not looked for at all. -/
theorem file_is_gone_and_file_is_left :
    (∃ t', (Cleanup.run "w/a" (some (2, .inputOutput))).run tree =
      some (.error (.cleanup "Cannot list w: Input/output error (os error 5)"), t') ∧
      tree.textAt? ["w", "a-1"] = some ['x'] ∧ t'.textAt? ["w", "a-1"] = none) ∧
    (Cleanup.run "w/ ").run blank = some (.ok {}, blank) ∧ blank.textAt? ["w", " a"] = some ['x'] :=
  ⟨⟨_, rfl, rfl, rfl⟩, rfl, rfl⟩

end LeftDirectory
end BatchExport
