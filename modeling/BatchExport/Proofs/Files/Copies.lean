import BatchExport.Proofs.Files.Placement
import BatchExport.Proofs.Story

/-! Files that are stored and restored for jobs, one after the other. Main statement: under an answered reference is what
the last call to the same place has left; with names of one piece, that is a call of the same job, unless the id of one
job goes on where that of another one ends. -/
namespace BatchExport

/-- The directories that jobs share. -/
structure JobDirectories where
  workDir : String
  appName : String
  outputDir : String
  restoreDir : String

inductive StagedPart where
  | records
  | errors

def StagedPart.suffix : StagedPart → String
  | records => WorkPath.recordsSuffix
  | errors => WorkPath.errorsSuffix

/-- A copy that is made for a job: a staged file is stored, or a snapshot is restored. -/
inductive CopyCall where
  | store (job : JobId) (file : String) (part : StagedPart)
  | restore (job : JobId) (snapshot : String)

namespace CopyCall

def job : CopyCall → JobId
  | store job _ _ => job
  | restore job _ => job

def source (d : JobDirectories) : CopyCall → String
  | store job file part => WorkPath.withSuffix (WorkPath.tempPath d.workDir d.appName job file) part.suffix
  | restore _ snapshot => snapshot

/-- The directory that the copy is meant for. -/
def target (d : JobDirectories) : CopyCall → String
  | store .. => d.outputDir
  | restore .. => d.restoreDir

def effect (d : JobDirectories) (call : CopyCall) : Effect FileTree String :=
  match call with
  | store .. => Storage.store d.outputDir (call.source d)
  | restore job snapshot => Storage.restore d.restoreDir job snapshot

/-- The id has no slash, and for a staged file the base name has none either. -/
def IsPlain : CopyCall → Prop
  | store job file _ => '/' ∉ (WorkPath.stem job file).toList
  | restore job _ => '/' ∉ job.text.toList

instance : (call : CopyCall) → Decidable call.IsPlain
  | store job file _ => inferInstanceAs (Decidable ('/' ∉ (WorkPath.stem job file).toList))
  | restore job _ => inferInstanceAs (Decidable ('/' ∉ job.text.toList))

end CopyCall

/-- A call that has succeeded: its answer, and the files before and after it. -/
structure CopyRecord where
  call : CopyCall
  ref : String
  before : FileTree
  after : FileTree

/-- The text of the file that was copied. -/
def CopyRecord.Copied (d : JobDirectories) (c : CopyRecord) (text : List Char) : Prop :=
  ∃ origin, c.after.locate (c.call.source d) = .ok origin ∧ c.before.textAt? origin = some text

/-- Calls that succeed one after the other. Others may act between them, as long as directories stay and nobody touches
what was copied. -/
inductive CopyStory (d : JobDirectories) : List CopyRecord → FileTree → Prop
  | start (t : FileTree) : CopyStory d [] t
  | call {calls : List CopyRecord} {t t' : FileTree} {call : CopyCall} {ref : String} (earlier : CopyStory d calls t)
      (run : (call.effect d).run t = some (.ok ref, t')) : CopyStory d (calls ++ [⟨call, ref, t, t'⟩]) t'
  | others {calls : List CopyRecord} {t t' : FileTree} (earlier : CopyStory d calls t) (grown : t.Grows t')
      (kept : ∀ c ∈ calls, t'.read c.ref = t.read c.ref) : CopyStory d calls t'

section Calls

variable {d : JobDirectories} {call : CopyCall} {ref : String} {t t' : FileTree} {calls : List CopyRecord}
  {c c' : CopyRecord}

theorem CopyCall.copies (hrun : (call.effect d).run t = some (.ok ref, t')) :
    ∃ text origin place, Storage.Copies (call.source d) ref text origin place t t' := by
  cases call with
  | store job file part =>
    have hends : ∃ base name, Path.EndsIn (CopyCall.source d (.store job file part)) base name := by
      cases part with
      | records => exact ⟨_, _, WorkPath.endsIn_records _⟩
      | errors => exact ⟨_, _, WorkPath.endsIn_errors _⟩
    obtain ⟨base, name, hends⟩ := hends
    exact (Storage.store_copies hends hrun).2
  | restore job snapshot =>
    obtain ⟨name, text, origin, place, -, -, -, hcopies⟩ := Storage.restore_ok hrun
    exact ⟨text, origin, place, hcopies⟩

/-- What has happened stays: the calls have succeeded, and the directories of then are there. -/
theorem CopyStory.mem (h : CopyStory d calls t) (hc : c ∈ calls) :
    (c.call.effect d).run c.before = some (.ok c.ref, c.after) ∧ c.after.Grows t := by
  induction h with
  | start t => cases hc
  | call earlier run ih =>
    obtain hc | hlast := List.mem_append.mp hc
    · obtain ⟨hrun, hgrown⟩ := ih hc
      obtain ⟨text, origin, place, hcopies⟩ := CopyCall.copies run
      exact ⟨hrun, hgrown.trans hcopies.sets.toGrows⟩
    · cases List.mem_singleton.mp hlast
      exact ⟨run, .refl _⟩
  | others earlier grown kept ih =>
    obtain ⟨hrun, hgrown⟩ := ih hc
    exact ⟨hrun, hgrown.trans grown⟩

/-- Every answered reference leads somewhere. -/
theorem CopyStory.located (h : CopyStory d calls t) (hc : c ∈ calls) :
    ∃ place, c.after.locate c.ref = .ok place ∧ t.locate c.ref = .ok place := by
  obtain ⟨hrun, hgrown⟩ := h.mem hc
  obtain ⟨text, origin, place, hcopies⟩ := CopyCall.copies hrun
  exact ⟨place, hcopies.located, hgrown.locate hcopies.located⟩

/-- What a call leaves under its reference: the text that it has copied, unless it has copied a file over itself. -/
theorem CopyStory.left (h : CopyStory d calls t) (hc : c ∈ calls) : ∃ text, c.after.read c.ref = .ok text := by
  obtain ⟨hrun, -⟩ := h.mem hc
  obtain ⟨text, origin, place, hcopies⟩ := CopyCall.copies hrun
  exact ⟨_, (FileTree.read_iff hcopies.located).mpr hcopies.sets.here⟩

/-- Of the calls from one on, the last one that leads to the same place. -/
structure LastThere (t : FileTree) (c : CopyRecord) (later : List CopyRecord) (last : CopyRecord) : Prop where
  split : ∃ between after, c :: later = between ++ last :: after ∧ ∀ x ∈ after, t.locate x.ref ≠ t.locate c.ref
  same : t.locate last.ref = t.locate c.ref

namespace LastThere

variable {later : List CopyRecord} {last new : CopyRecord}

theorem mem (h : LastThere t c later last) : last ∈ c :: later := by
  obtain ⟨between, after, heq, -⟩ := h.split
  rw [heq]
  exact List.mem_append_right _ List.mem_cons_self

private theorem mono (h : LastThere t c later last) (hsame : ∀ x ∈ c :: later, t'.locate x.ref = t.locate x.ref) :
    LastThere t' c later last := by
  refine ⟨?_, ?_⟩
  · obtain ⟨between, after, heq, hothers⟩ := h.split
    refine ⟨between, after, heq, fun x hx => ?_⟩
    rw [hsame x (heq ▸ List.mem_append_right _ (List.mem_cons_of_mem _ hx)), hsame c List.mem_cons_self]
    exact hothers x hx
  · rw [hsame last h.mem, hsame c List.mem_cons_self, h.same]

private theorem snoc (h : LastThere t c later last) (hnew : t.locate new.ref ≠ t.locate c.ref) :
    LastThere t c (later ++ [new]) last := by
  refine ⟨?_, h.same⟩
  obtain ⟨between, after, heq, hothers⟩ := h.split
  refine ⟨between, after ++ [new], ?_, fun x hx => ?_⟩
  · rw [← List.cons_append, heq, List.append_assoc, List.cons_append]
  · obtain hx | hx := List.mem_append.mp hx
    · exact hothers x hx
    · rw [List.mem_singleton.mp hx]
      exact hnew

private theorem of_new (h : t.locate new.ref = t.locate c.ref) : LastThere t c (later ++ [new]) new :=
  ⟨⟨c :: later, [], rfl, by simp⟩, h⟩

private theorem self : LastThere t c [] c := ⟨⟨[], [], rfl, by simp⟩, rfl⟩

end LastThere

/-- A call of another place leaves what is under a reference. -/
private theorem read_elsewhere {source : String} {text : List Char} {origin place other : Location}
    (hcopies : Storage.Copies source ref text origin place t t') (hother : t.locate c.ref = .ok other)
    (hne : other ≠ place) {left : List Char} (hleft : t.read c.ref = .ok left) : t'.read c.ref = .ok left := by
  rw [FileTree.read_iff (hcopies.sets.toGrows.locate hother), hcopies.sets.elsewhere other hne]
  exact (FileTree.read_iff hother).mp hleft

/-- Under an answered reference is what the last call to the same place has left. -/
theorem CopyStory.read_last (h : CopyStory d calls t) {earlier later : List CopyRecord}
    (hsplit : calls = earlier ++ c :: later) :
    ∃ last, LastThere t c later last ∧ t.read c.ref = last.after.read last.ref := by
  induction h generalizing earlier c later with
  | start t => simp at hsplit
  | @call calls t t' call ref story run ih =>
    obtain ⟨-, rfl, rfl⟩ | ⟨later', rfl, rfl⟩ := snoc_eq_split_iff.mp hsplit
    · -- The call itself is the last one.
      exact ⟨_, .self, rfl⟩
    · obtain ⟨text, origin, place, hcopies⟩ := CopyCall.copies run
      have hgrown := hcopies.sets.toGrows
      have hmem {x : CopyRecord} (hx : x ∈ c :: later') : x ∈ earlier ++ c :: later' := List.mem_append_right _ hx
      have hsame (x : CopyRecord) (hx : x ∈ c :: later') : t'.locate x.ref = t.locate x.ref := by
        obtain ⟨there, -, hthere⟩ := story.located (hmem hx)
        rw [hgrown.locate hthere, hthere]
      obtain ⟨there, -, hthere⟩ := story.located (hmem List.mem_cons_self)
      by_cases hplace : there = place
      · subst hplace
        refine ⟨_, .of_new (hcopies.located.trans (hgrown.locate hthere).symm), ?_⟩
        dsimp only
        rw [(FileTree.read_iff hcopies.located).mpr hcopies.sets.here]
        exact (FileTree.read_iff (hgrown.locate hthere)).mpr hcopies.sets.here
      · obtain ⟨last, hlast, hread⟩ := ih rfl
        obtain ⟨left, hleft⟩ := story.left (hmem hlast.mem)
        refine ⟨last, (hlast.mono hsame).snoc ?_, ?_⟩
        · rw [hcopies.located, hgrown.locate hthere]
          exact fun heq => hplace (Except.ok.inj heq).symm
        · rw [hleft]
          exact read_elsewhere hcopies hthere hplace (hread.trans hleft)
  | @others calls t t' story grown kept ih =>
    obtain ⟨last, hlast, hread⟩ := ih hsplit
    have hmem {x : CopyRecord} (hx : x ∈ c :: later) : x ∈ calls := hsplit ▸ List.mem_append_right _ hx
    refine ⟨last, hlast.mono fun x hx => ?_, (kept c (hmem List.mem_cons_self)).trans hread⟩
    obtain ⟨there, -, hthere⟩ := story.located (hmem hx)
    rw [grown.locate hthere, hthere]

/-- Where the copy of a plain call is: in the directory that is meant, under a name that starts with the id. -/
private structure Lodged (d : JobDirectories) (call : CopyCall) (ref : String) (t t' : FileTree) (dir : Location)
    (name : String) : Prop where
  home : Storage.home (call.target d) t' = .ok dir
  lead : (call.job.text ++ WorkPath.jobIdSeparator).toList <+: name.toList
  named : ref = Path.join (call.target d) name
  copies : ∃ text origin, Storage.Copies (call.source d) ref text origin (dir ++ [name]) t t'
  /-- Only a staged file can be copied over itself, by a storage that keeps its files where they are staged. -/
  apart : t'.locate (call.source d) = .ok (dir ++ [name]) →
    call.target d = d.outputDir ∧ Storage.home (WorkPath.appDir d.workDir d.appName) t' = .ok dir

private theorem lodged_store {job : JobId} {file : String} {part : StagedPart}
    (hplain : (CopyCall.store job file part).IsPlain)
    (hrun : ((CopyCall.store job file part).effect d).run t = some (.ok ref, t')) :
    ∃ dir name, Lodged d (.store job file part) ref t t' dir name := by
  have hsuffix : '/' ∉ part.suffix.toList := by cases part <;> decide
  have hends : Path.EndsIn (CopyCall.source d (.store job file part)) _ _ := WorkPath.endsIn_staged hplain hsuffix
  obtain ⟨rfl, text, origin, place, hcopies⟩ := Storage.store_copies hends hrun
  have hname := hends.isName
  rw [Storage.keptAt, String.ofList_toList] at hcopies ⊢
  obtain ⟨dir, hhome, rfl⟩ := Storage.locate_join hname hcopies.located
  refine ⟨dir, _, hhome, WorkPath.lead_prefix_staged job file part.suffix, rfl, ⟨text, origin, hcopies⟩, ?_⟩
  intro hself
  refine ⟨rfl, ?_⟩
  rw [CopyCall.source, WorkPath.withSuffix_tempPath hsuffix] at hself
  obtain ⟨staging, hstaging, heq⟩ := Storage.locate_join hname hself
  obtain ⟨rfl, -⟩ := List.append_inj' heq rfl
  exact hstaging

private theorem lodged_restore {job : JobId} {snapshot : String} (hplain : (CopyCall.restore job snapshot).IsPlain)
    (hrun : ((CopyCall.restore job snapshot).effect d).run t = some (.ok ref, t')) :
    ∃ dir name, Lodged d (.restore job snapshot) ref t t' dir name := by
  obtain ⟨name, text, origin, place, hfile, rfl, horigin, hcopies⟩ := Storage.restore_ok hrun
  have hname : Path.IsName (Storage.restoredName job name).toList := by
    have hjob : '/' ∉ job.text.toList := hplain
    refine .of_separator ?_ (by simp [Storage.restoredName])
    simp [Storage.restoredName, hjob, Path.slash_not_mem_fileName hfile]
  obtain ⟨dir, hhome, rfl⟩ := Storage.locate_join hname hcopies.located
  refine ⟨dir, _, hhome, ⟨name.toList, ?_⟩, rfl, ⟨text, origin, hcopies⟩, fun hself => ?_⟩
  · simp [Storage.restoredName, CopyCall.job, WorkPath.jobIdSeparator]
  · -- The name of the copy is longer than the one of the snapshot.
    obtain ⟨dir', heq⟩ := FileTree.locate_fileName hfile hself
    obtain ⟨-, hnames⟩ := List.append_inj' heq rfl
    have hlength := congrArg String.length (List.singleton_inj.mp hnames)
    simp only [Storage.restoredName, String.length_append] at hlength
    have hseparator : "-".length = 1 := rfl
    omega

private theorem CopyStory.lodged (h : CopyStory d calls t) (hc : c ∈ calls) (hplain : c.call.IsPlain) :
    ∃ dir name, Lodged d c.call c.ref c.before c.after dir name := by
  obtain ⟨hrun, -⟩ := h.mem hc
  obtain ⟨call, ref, before, after⟩ := c
  cases call with
  | store job file part => exact lodged_store hplain hrun
  | restore job snapshot => exact lodged_restore hplain hrun

section Apart

variable (hout : Storage.Apart d.outputDir d.restoreDir t)

/-- What is kept elsewhere than it was staged has the text of what was copied. -/
private theorem CopyStory.left_own (h : CopyStory d calls t) (hc : c ∈ calls) (hplain : c.call.IsPlain)
    (hstaging : Storage.Apart d.outputDir (WorkPath.appDir d.workDir d.appName) t) :
    ∃ text, c.Copied d text ∧ c.after.read c.ref = .ok text := by
  obtain ⟨-, hgrown⟩ := h.mem hc
  obtain ⟨dir, name, hlodged⟩ := h.lodged hc hplain
  obtain ⟨text, origin, hcopies⟩ := hlodged.copies
  refine ⟨text, ⟨origin, hcopies.sourceAt, hcopies.before⟩, (FileTree.read_iff hcopies.located).mpr ?_⟩
  have hne : dir ++ [name] ≠ origin := by
    rintro rfl
    obtain ⟨htarget, hstaged⟩ := hlodged.apart hcopies.sourceAt
    have hhome := hlodged.home
    rw [htarget] at hhome
    exact hstaging _ (Storage.home_grows hgrown hhome) (Storage.home_grows hgrown hstaged)
  have htext := hcopies.sets.here
  rwa [if_neg hne] at htext

include hout in
/-- Calls that lead to one place have answered one reference, and their ids begin one name. -/
private theorem CopyStory.same_ref (h : CopyStory d calls t) (hc : c ∈ calls) (hc' : c' ∈ calls)
    (hplain : c.call.IsPlain) (hplain' : c'.call.IsPlain) (hsame : t.locate c.ref = t.locate c'.ref) :
    c.ref = c'.ref ∧ (c.call.job = c'.call.job ∨ c.call.job.Continues c'.call.job ∨
      c'.call.job.Continues c.call.job) := by
  obtain ⟨-, hgrown⟩ := h.mem hc
  obtain ⟨-, hgrown'⟩ := h.mem hc'
  obtain ⟨dir, name, hlodged⟩ := h.lodged hc hplain
  obtain ⟨dir', name', hlodged'⟩ := h.lodged hc' hplain'
  obtain ⟨text, origin, hcopies⟩ := hlodged.copies
  obtain ⟨text', origin', hcopies'⟩ := hlodged'.copies
  rw [hgrown.locate hcopies.located, hgrown'.locate hcopies'.located] at hsame
  obtain ⟨rfl, hname⟩ := List.append_inj' (Except.ok.inj hsame) rfl
  obtain rfl := List.singleton_inj.mp hname
  have htarget : c.call.target d = c'.call.target d := by
    have hhome := Storage.home_grows hgrown hlodged.home
    have hhome' := Storage.home_grows hgrown' hlodged'.home
    cases hcall : c.call <;> cases hcall' : c'.call <;> rw [hcall] at hhome <;> rw [hcall'] at hhome'
    · rfl
    · exact absurd hhome' (hout _ hhome)
    · exact absurd hhome (hout _ hhome')
    · rfl
  refine ⟨?_, WorkPath.eq_or_continues_of_leads hlodged.lead hlodged'.lead⟩
  rw [hlodged.named, hlodged'.named, htarget]

end Apart

/-- Under an answered reference is what the last call to the same place has left. If the directories are apart and the calls
are plain, this is what that call has copied, and it has answered the same reference. So it is the call itself, unless a
later one with the same reference was for the same job, or one of the two ids goes on where the other one ends. -/
theorem CopyStory.reference_holds (h : CopyStory d calls t) {earlier later : List CopyRecord}
    (hsplit : calls = earlier ++ c :: later) :
    ∃ last, LastThere t c later last ∧ t.read c.ref = last.after.read last.ref ∧
      (Storage.Apart d.outputDir d.restoreDir t → Storage.Apart d.outputDir (WorkPath.appDir d.workDir d.appName) t →
        (∀ x ∈ c :: later, x.call.IsPlain) → last.ref = c.ref ∧ (∃ text, last.Copied d text ∧ t.read c.ref = .ok text) ∧
          ((∀ x ∈ later, x.ref = c.ref → x.call.job ≠ c.call.job ∧ ¬ x.call.job.Continues c.call.job ∧
            ¬ c.call.job.Continues x.call.job) → last = c)) := by
  obtain ⟨last, hlast, hread⟩ := h.read_last hsplit
  refine ⟨last, hlast, hread, fun hout hstaging hplain => ?_⟩
  have hmem {x : CopyRecord} (hx : x ∈ c :: later) : x ∈ calls := hsplit ▸ List.mem_append_right _ hx
  obtain ⟨hsame, hjobs⟩ := h.same_ref hout (hmem hlast.mem) (hmem List.mem_cons_self) (hplain _ hlast.mem)
    (hplain c List.mem_cons_self) hlast.same
  obtain ⟨text, hcopied, hleft⟩ := h.left_own (hmem hlast.mem) (hplain _ hlast.mem) hstaging
  refine ⟨hsame, ⟨text, hcopied, hread.trans hleft⟩, fun hothers => ?_⟩
  obtain hself | hlater := List.mem_cons.mp hlast.mem
  · exact hself
  · obtain ⟨hne, hafter, hbefore⟩ := hothers last hlater hsame
    obtain heq | hcontinues | hcontinues := hjobs
    · exact absurd heq hne
    · exact absurd hcontinues hafter
    · exact absurd hcontinues hbefore

end Calls

namespace SharedNames

def directories : JobDirectories := ⟨"work", "ferry", "out", "restore"⟩

/-- A staged file and two snapshots. -/
def tree : FileTree where
  nodes := [(["out"], .directory), (["restore"], .directory), (["s1"], .directory), (["s2"], .directory),
    (["s1", "a-x.csv"], .file ['1']), (["s2", "x.csv"], .file ['2']), (["work"], .directory),
    (["work", "ferry"], .directory), (["work", "ferry", "J1-orders.jsonl"], .file ['3'])]
  current := []

def afterFirst (call : CopyCall) : FileTree := (call.effect directories).aftermath tree

def afterBoth (call call' : CopyCall) : FileTree := (call'.effect directories).aftermath (afterFirst call)

/-- What two calls answer, one after the other. -/
def answers (call call' : CopyCall) : List (Option (Option String)) :=
  [((call.effect directories).run tree).map (·.1.toOption),
    ((call'.effect directories).run (afterFirst call)).map (·.1.toOption)]

private theorem story {call call' : CopyCall} {ref ref' : String}
    (h : answers call call' = [some (some ref), some (some ref')]) :
    CopyStory directories [⟨call, ref, tree, afterFirst call⟩, ⟨call', ref', afterFirst call, afterBoth call call'⟩]
      (afterBoth call call') := by
  obtain ⟨hfirst, hsecond⟩ := List.cons_eq_cons.mp h
  exact .call (.call (.start tree) (Effect.run_of_answer hfirst)) (Effect.run_of_answer (List.singleton_inj.mp hsecond))

/-- Where the shared directories are at the end. -/
def homes (t : FileTree) : List (Option Location) :=
  [directories.outputDir, directories.restoreDir, WorkPath.appDir directories.workDir directories.appName].map fun dir =>
    (Storage.home dir t).toOption

private theorem apart_of_homes {t : FileTree} (h : homes t = [some ["out"], some ["restore"], some ["work", "ferry"]]) :
    Storage.Apart directories.outputDir directories.restoreDir t ∧
      Storage.Apart directories.outputDir (WorkPath.appDir directories.workDir directories.appName) t := by
  obtain ⟨hout, hrest⟩ := List.cons_eq_cons.mp h
  obtain ⟨hrestore, hstaging⟩ := List.cons_eq_cons.mp hrest
  have hout := Effect.ok_of_toOption hout
  have hrestore := Effect.ok_of_toOption hrestore
  have hstaging := Effect.ok_of_toOption (List.singleton_inj.mp hstaging)
  constructor
  · intro place hplace hother
    obtain rfl := Except.ok.inj (hplace.symm.trans hout)
    exact absurd (Except.ok.inj (hother.symm.trans hrestore)) (by decide)
  · intro place hplace hother
    obtain rfl := Except.ok.inj (hplace.symm.trans hout)
    exact absurd (Except.ok.inj (hother.symm.trans hstaging)) (by decide)

def overwritten : CopyCall := .restore ⟨"J1"⟩ "s1/a-x.csv"

def overwriting : CopyCall := .restore ⟨"J1-a"⟩ "s2/x.csv"

private theorem overwritten_answers :
    answers overwritten overwriting = [some (some "restore/J1-a-x.csv"), some (some "restore/J1-a-x.csv")] := by
  decide +kernel

private theorem overwritten_homes :
    homes (afterBoth overwritten overwriting) = [some ["out"], some ["restore"], some ["work", "ferry"]] := by
  decide +kernel

/-- The id of the second job goes on where the first one ends, and its snapshot takes the place of the other one. -/
theorem restored_file_is_overwritten : ∃ first second t,
    CopyStory directories [first, second] t ∧ first.call.job ≠ second.call.job ∧
      Storage.Apart directories.outputDir directories.restoreDir t ∧
      Storage.Apart directories.outputDir (WorkPath.appDir directories.workDir directories.appName) t ∧
      first.Copied directories ['1'] ∧ t.read first.ref = .ok ['2'] := by
  obtain ⟨hrestore, hstaging⟩ := apart_of_homes overwritten_homes
  refine ⟨_, _, _, story overwritten_answers, by decide, hrestore, hstaging, ⟨["s1", "a-x.csv"], ?_, rfl⟩, ?_⟩
  · exact Effect.ok_of_toOption (by decide +kernel)
  · exact Effect.ok_of_toOption (by decide +kernel)

def staged : CopyCall := .store ⟨"J1"⟩ "orders" .records

def restored : CopyCall := .restore ⟨"J2"⟩ "s2/x.csv"

private theorem kept_answers :
    answers staged restored = [some (some "out/J1-orders.jsonl"), some (some "restore/J2-x.csv")] := by
  decide +kernel

private theorem kept_homes :
    homes (afterBoth staged restored) = [some ["out"], some ["restore"], some ["work", "ferry"]] := by
  decide +kernel

/-- Neither of the two ids goes on where the other one ends. -/
theorem references_of_two_jobs_hold : ∃ first second t, CopyStory directories [first, second] t ∧
    first.ref = "out/J1-orders.jsonl" ∧ second.ref = "restore/J2-x.csv" ∧
      (∃ text, first.Copied directories text ∧ t.read first.ref = .ok text) ∧
      ∃ text, second.Copied directories text ∧ t.read second.ref = .ok text := by
  obtain ⟨hrestore, hstaging⟩ := apart_of_homes kept_homes
  have hstory := story kept_answers
  have hstaged : staged.IsPlain := by decide +kernel
  have hrestored : restored.IsPlain := by decide +kernel
  have hplain : ∀ x ∈ [(⟨staged, "out/J1-orders.jsonl", tree, afterFirst staged⟩ : CopyRecord),
      ⟨restored, "restore/J2-x.csv", afterFirst staged, afterBoth staged restored⟩], x.call.IsPlain := by
    simp only [List.forall_mem_cons]
    exact ⟨hstaged, hrestored, by simp⟩
  obtain ⟨last, -, -, hfirst⟩ := CopyStory.reference_holds hstory (List.nil_append _).symm
  obtain ⟨-, hread, hown⟩ := hfirst hrestore hstaging hplain
  obtain ⟨last', -, -, hsecond⟩ := CopyStory.reference_holds hstory List.singleton_append.symm
  obtain ⟨-, hread', hown'⟩ := hsecond hrestore hstaging fun x hx => hplain x (List.mem_cons_of_mem _ hx)
  refine ⟨_, _, _, hstory, rfl, rfl, ?_, ?_⟩
  · rw [hown] at hread
    · exact hread
    · rintro x hx hsame
      rw [List.mem_singleton.mp hx] at hsame
      exact absurd hsame (by decide)
  · rw [hown' (by simp)] at hread'
    exact hread'

end SharedNames
end BatchExport
