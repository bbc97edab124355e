import BatchExport.Proofs.Export.Stopping

/-! Staged files from before. Main statement: what a completed export hands to its storage are the lines of this run and,
if records were skipped, its rows; if none was, an errors file that was there before is handed over in its place. -/
namespace BatchExport

namespace ExportJob

variable {ω : Type} {j : ExportJob ω} {fuel : Nat} {temp outputDir : String} {area : StagingArea temp} {e e' : Execution}
  {w w' : Worker ω} {log : FlowLog Json Json} {paths refs : List String}

/-- A storage that answers for a staged file has found a file there. When it keeps the records file, it leaves the
errors file alone. -/
structure KeepsStaged (j : ExportJob ω) (temp : String) : Prop where
  finds : ∀ {path ref : String} {w w' : Worker ω} {location : Location},
    path = WorkPath.records temp ∨ path = WorkPath.errors temp → w.files.locate path = .ok location →
      (j.store path).run w = some (.ok ref, w') → ∃ text, w.files.textAt? location = some text
  spares : ∀ {ref : String} {w w' : Worker ω} {location : Location},
    w.files.locate (WorkPath.records temp) = .ok location →
      (j.store (WorkPath.records temp)).run w = some (.ok ref, w') → w.files.Grows w'.files ∧
        ∀ other, w.files.locate (WorkPath.errors temp) = .ok other → w'.files.textAt? other = w.files.textAt? other

/-- Copying into a directory is such a storage. -/
theorem keepsStaged_of_copies (hstore : j.store = fun path => Worker.onFiles (Storage.store outputDir path)) :
    j.KeepsStaged temp := by
  have hslash (suffix : String) (h : '/' ∉ suffix.toList) : '/' ∉ WorkPath.nameWith temp suffix :=
    Path.slash_not_mem_suffix temp h
  constructor
  · intro path ref w w' location hpath hl hrun
    rw [hstore] at hrun
    obtain ⟨files, hfiles, -⟩ := Effect.onPart_some hrun
    have hkept : ∃ text, w.files.textAt? location = some text := by
      rcases hpath with rfl | rfl
      · obtain ⟨-, home, hkept⟩ := Storage.store_ok (WorkPath.endsIn_records temp) (hslash _ (by decide)) hl hfiles
        obtain ⟨text, htext, -⟩ := hkept.sets
        exact ⟨text, htext⟩
      · obtain ⟨-, home, hkept⟩ := Storage.store_ok (WorkPath.endsIn_errors temp) (hslash _ (by decide)) hl hfiles
        obtain ⟨text, htext, -⟩ := hkept.sets
        exact ⟨text, htext⟩
    exact hkept
  · intro ref w w' location hl hrun
    rw [hstore] at hrun
    obtain ⟨files, hfiles, rfl⟩ := Effect.onPart_some hrun
    obtain ⟨-, home, hkept⟩ := Storage.store_ok (WorkPath.endsIn_records temp) (hslash _ (by decide)) hl hfiles
    obtain ⟨text, -, hset⟩ := hkept.sets
    refine ⟨hset.toGrows, fun other hother => ?_⟩
    obtain ⟨dir, -, rfl, -⟩ := FileTree.locate_ok (WorkPath.endsIn_errors temp) hother
    exact hset.elsewhere _ (WorkPath.append_entry_ne temp)

/-- A staged file as the storage has found it, and what it has answered. -/
structure Handed where
  path : String
  text : List Char
  ref : String

/-- The staged files that are there are handed to the storage, one after the other. -/
inductive Hands (j : ExportJob ω) : List String → Worker ω → List Handed → Worker ω → Prop
  | done (w : Worker ω) : Hands j [] w [] w
  | missing {path : String} {rest : List String} {handed : List Handed} {w w' : Worker ω}
      (check : w.files.exists? path = .ok false) (later : Hands j rest w handed w') : Hands j (path :: rest) w handed w'
  | stored {path ref : String} {text : List Char} {rest : List String} {handed : List Handed} {w w₁ w' : Worker ω}
      (check : w.files.exists? path = .ok true) (found : w.files.read path = .ok text)
      (answer : (j.store path).run w = some (.ok ref, w₁)) (later : Hands j rest w₁ handed w') :
      Hands j (path :: rest) w (⟨path, text, ref⟩ :: handed) w'

private theorem hands_of_calls (hkeeps : j.KeepsStaged temp)
    (hpaths : ∀ path ∈ paths, path = WorkPath.records temp ∨ path = WorkPath.errors temp)
    (h : j.StoreCalls id paths w refs w') : ∃ handed, j.Hands paths w handed w' ∧ handed.map (·.ref) = refs := by
  induction h with
  | done w => exact ⟨[], .done w, rfl⟩
  | missing check later ih =>
    obtain ⟨handed, hhands, hrefs⟩ := ih fun path hpath => hpaths path (List.mem_cons_of_mem _ hpath)
    exact ⟨handed, .missing check hhands, hrefs⟩
  | @stored path ref rest refs w w₁ w' check answer later ih =>
    obtain ⟨handed, hhands, hrefs⟩ := ih fun path hpath => hpaths path (List.mem_cons_of_mem _ hpath)
    obtain ⟨location, hl⟩ := FileTree.locate_of_there check
    obtain ⟨text, htext⟩ := hkeeps.finds (hpaths path List.mem_cons_self) hl answer
    have hfound : w.files.read path = .ok text := (FileTree.read_iff hl).mpr htext
    exact ⟨⟨path, text, ref⟩ :: handed, .stored check hfound answer hhands, by rw [List.map_cons, hrefs]⟩

/-- Where the errors file is staged, if it can be told at all whether it is there. -/
private theorem errors_located {there : Bool} (hgrown : area.tree.Grows w.files)
    (hcheck : w.files.exists? (WorkPath.errors temp) = .ok there) :
    w.files.locate (WorkPath.errors temp) = .ok area.errors ∧
      area.tree.locate (WorkPath.errors temp) = .ok area.errors := by
  have hslash : '/' ∉ WorkPath.errorsSuffix.toList := by decide
  have hwalk := area.walk_of_grows hgrown hslash
  have hlocate : w.files.locate (WorkPath.errors temp) = .ok area.errors :=
    FileTree.locate_of_exists (WorkPath.endsIn_errors temp) hwalk (hgrown.directories _ area.isDirectory) hcheck
  exact ⟨hlocate, hgrown.locate_before (WorkPath.endsIn_errors temp) (area.walk_of_grows (.refl _) hslash)
    area.isDirectory hlocate⟩

private theorem hands_errors {handed : List Handed} (hgrown : area.tree.Grows w.files)
    (h : j.Hands [WorkPath.errors temp] w handed w') :
    handed.map (fun h => (h.path, h.text)) = ((w.files.textAt? area.errors).map (WorkPath.errors temp, ·)).toList ∧
      area.tree.locate (WorkPath.errors temp) = .ok area.errors := by
  cases h with
  | missing check later =>
    obtain ⟨hlocate, hbefore⟩ := errors_located hgrown check
    rw [FileTree.exists?_of_locate hlocate, Except.ok.injEq] at check
    have hnone : w.files.node? area.errors = none := by simpa using check
    cases later
    rw [FileTree.textAt?, hnone]
    exact ⟨rfl, hbefore⟩
  | stored check found answer later =>
    obtain ⟨hlocate, hbefore⟩ := errors_located hgrown check
    rw [(FileTree.read_iff hlocate).mp found]
    cases later
    exact ⟨rfl, hbefore⟩

/-- What is handed over is what is staged: the records file, and the errors file if there is one. -/
private theorem hands_staged {handed : List Handed} (hkeeps : j.KeepsStaged temp) (hstaged : IsStaged area log w.files)
    (hrecords : area.tree.locate (WorkPath.records temp) = .ok area.records)
    (h : j.Hands [WorkPath.records temp, WorkPath.errors temp] w handed w') :
    handed.map (fun h => (h.path, h.text)) = (WorkPath.records temp, log.outputs.flatMap StagedOutput.line) ::
        ((w.files.textAt? area.errors).map (WorkPath.errors temp, ·)).toList ∧
      area.tree.locate (WorkPath.errors temp) = .ok area.errors := by
  have hlocate := hstaged.grown.locate hrecords
  cases h with
  | missing check later =>
    rw [FileTree.exists?_of_locate hlocate, FileTree.textAt?_eq_some.mp hstaged.records] at check
    cases check
  | @stored _ _ text _ _ _ w₁ _ check found answer later =>
    obtain rfl : text = log.outputs.flatMap StagedOutput.line := by
      have htext := (FileTree.read_iff hlocate).mp found
      exact Option.some.inj (htext.symm.trans hstaged.records)
    obtain ⟨hgrown, hsame⟩ := hkeeps.spares hlocate answer
    obtain ⟨hlater, herrors⟩ := hands_errors (hstaged.grown.trans hgrown) later
    rw [hsame area.errors (hstaged.grown.locate herrors)] at hlater
    exact ⟨by rw [List.map_cons, hlater], herrors⟩

theorem Hands.answered {handed : List Handed} (h : j.Hands paths w handed w') {file : Handed} (hfile : file ∈ handed) :
    ∃ w₁ w₂, (j.store file.path).run w₁ = some (.ok file.ref, w₂) := by
  induction h with
  | done w => cases hfile
  | missing check later ih => exact ih hfile
  | stored check found answer later ih =>
    rcases List.mem_cons.mp hfile with rfl | hfile
    · exact ⟨_, _, answer⟩
    · exact ih hfile

/-- An errors file that was there before, once the directory of the staged files is made. -/
def leftover? (temp : String) (t : FileTree) : Option (List Char) :=
  ((StagedOutput.withDirectory (WorkPath.records temp) t).read (WorkPath.errors temp)).toOption

/-- What an export that has staged its records hands to its storage and lists, from these files at the start. -/
structure HandsOver (d : j.Staging fuel e w e' w') (initial : FileTree) (listed? : Option String) (final : Worker ω)
    (handed : List Handed) : Prop where
  calls : j.Hands [WorkPath.records d.temp, WorkPath.errors d.temp] w' handed final
  listed : listed? = some (OutputFiles.join (handed.map (·.ref)))
  /-- The lines of this run, and its rows; without any row, the errors file from before. -/
  staged : handed.map (fun file => (file.path, file.text)) =
    (WorkPath.records d.temp, d.log.outputs.flatMap StagedOutput.line) ::
      ((if d.run.skipped = 0 then leftover? d.temp initial else some (StagedOutput.errorsText d.log.failures)).map
        (WorkPath.errors d.temp, ·)).toList
  errors : (∃ file ∈ handed, file.path = WorkPath.errors d.temp) ↔
    d.run.skipped ≠ 0 ∨ (leftover? d.temp initial).isSome
  /-- Copies have what was handed over, unless they are the staged files themselves. -/
  copies : ∀ outputDir, (j.store = fun path => Worker.onFiles (Storage.store outputDir path)) → ∀ file ∈ handed,
    ∃ kept, final.files.read file.ref = .ok kept ∧
      (kept = file.text ∨ kept = [] ∧ final.files.locate file.ref = final.files.locate file.path)

private theorem copies_kept {handed : List Handed} {outputDir : String}
    (hstore : j.store = fun path => Worker.onFiles (Storage.store outputDir path)) (hstaged : IsStaged area log w.files)
    (hrecords : area.tree.locate (WorkPath.records temp) = .ok area.records)
    (hstored : (j.storeStaged [WorkPath.records temp, WorkPath.errors temp]).run (e, w) = some (.ok refs, e', w'))
    (hhands : j.Hands [WorkPath.records temp, WorkPath.errors temp] w handed w')
    (heq : handed.map (fun file => (file.path, file.text)) =
      (WorkPath.records temp, log.outputs.flatMap StagedOutput.line) ::
        ((w.files.textAt? area.errors).map (WorkPath.errors temp, ·)).toList)
    {file : Handed} (hfile : file ∈ handed) : ∃ kept, w'.files.read file.ref = .ok kept ∧
      (kept = file.text ∨ kept = [] ∧ w'.files.locate file.ref = w'.files.locate file.path) := by
  obtain ⟨-, -, home, files, rfl, hgrown, herrors, hkept⟩ := storeStaged_ok hstore hstaged.grown hstaged.records hstored
  obtain ⟨w₁, w₂, hanswer⟩ := hhands.answered hfile
  rw [hstore] at hanswer
  obtain ⟨files', hfiles, -⟩ := Effect.onPart_some hanswer
  have hmem : (file.path, file.text) ∈ handed.map fun file => (file.path, file.text) := List.mem_map_of_mem hfile
  rw [heq] at hmem
  obtain ⟨path, text, ref⟩ := file
  rcases List.mem_cons.mp hmem with hfirst | hsecond
  · cases hfirst
    rw [Storage.store_answers (WorkPath.endsIn_records temp) hfiles]
    have hpresent : WorkPath.recordsSuffix ∈ present area w.files := by
      rw [present]
      split <;> simp
    exact (hkept _ hpresent).read hstaged.records ((hstaged.grown.trans hgrown).locate hrecords)
  · obtain ⟨text', htext, hpair⟩ := Option.map_eq_some_iff.mp (Option.mem_toList.mp hsecond)
    cases hpair
    rw [Storage.store_answers (WorkPath.endsIn_errors temp) hfiles]
    have hpresent : WorkPath.errorsSuffix ∈ present area w.files := by
      rw [present, htext]
      simp
    exact (hkept _ hpresent).read htext herrors

/-- There is something to hand over at the path of the errors file exactly if it is listed among what is handed over. -/
private theorem errors_handed {handed : List Handed} {lines : List Char} {errors? : Option (List Char)}
    (heq : handed.map (fun file => (file.path, file.text)) =
      (WorkPath.records temp, lines) :: (errors?.map (WorkPath.errors temp, ·)).toList) :
    (∃ file ∈ handed, file.path = WorkPath.errors temp) ↔ errors?.isSome := by
  have hne : WorkPath.records temp ≠ WorkPath.errors temp := by
    intro hsame
    have hsuffix : WorkPath.recordsSuffix.toList = WorkPath.errorsSuffix.toList := by
      have htext := congrArg String.toList hsame
      simpa [WorkPath.records, WorkPath.errors, WorkPath.withSuffix] using htext
    revert hsuffix
    decide
  have hmapped : (∃ file ∈ handed, file.path = WorkPath.errors temp) ↔
      ∃ pair ∈ handed.map (fun file => (file.path, file.text)), pair.1 = WorkPath.errors temp := by
    constructor
    · rintro ⟨file, hfile, hpath⟩
      exact ⟨_, List.mem_map_of_mem hfile, hpath⟩
    · rintro ⟨pair, hpair, hpath⟩
      obtain ⟨file, hfile, rfl⟩ := List.mem_map.mp hpair
      exact ⟨file, hfile, hpath⟩
  rw [hmapped, heq]
  cases errors? <;> simp [hne]

variable {s : Surroundings ω} {start r : Run ω} {w₀ : Worker ω}

/-- A completed export hands over its own lines and rows. Only if it has skipped nothing can there be an errors file that
is not its own: the one that was there when it began. -/
theorem completed_hands_over (hs : s.SpareFiles) (hservices : j.ServicesKeep Worker.SameFiles)
    (hkeeps : ∀ temp, j.KeepsStaged temp) (hstarting : start.phase = .starting) (hpart : start.job = [j.part fuel])
    {isTimeToLeave : Worker ω → Bool} {n : Nat} (hrun : start.goOn s isTimeToLeave n w₀ = (r, w)) (hended : r.isEnded)
    (hcompleted : r.execution.status = .completed) :
    ∃ e₁ w₁ e₂ w₂ e₃ w₃ now, Run.Works s start w₀ (j.part fuel) e₁ w₁ e₃ w₃ ∧
      r.execution = e₃.conclude (.ok ()) false now ∧ ∃ d : j.Staging fuel e₁ w₁ e₂ w₂, ∃ handed,
        HandsOver d w₀.files (Entries.get? r.execution.context Key.outputFiles) w₃ handed := by
  have hleads : Run.Leads s start w₀ r w := Run.leads_of_goOn hrun
  obtain ⟨w₃, e₁, w₁, e₃, now, hworks, hstop, heq⟩ :=
    hleads.hasCompleted hs hstarting hpart (Run.phase_of_isEnded hended) hcompleted
  obtain ⟨e₂, w₂, d, hfinish⟩ := execute_stages hservices hworks.act
  obtain ⟨-, refs, e₂', rfl, hstored⟩ := finish_stores hfinish hstop
  have hcalls : e₂' = e₂ ∧ j.StoreCalls id [WorkPath.records d.temp, WorkPath.errors d.temp] w₂ refs w₃ := by
    rw [← storeAmid_id] at hstored
    exact storeAmid_ok_iff.mp hstored
  obtain ⟨handed, hhands, rfl⟩ := hands_of_calls (hkeeps d.temp) (by simp) hcalls.2
  obtain ⟨hstaged, herrors⟩ := hands_staged (hkeeps d.temp) d.staged d.recordsAt hhands
  have hskipped : d.run.skipped = 0 ↔ d.log.failures = [] := by rw [d.tally.skipped, List.length_eq_zero_iff]
  have hleftover : d.area.tree.textAt? d.area.errors = leftover? d.temp w₀.files := by
    rw [leftover?]
    rw [← hworks.files hs hstarting hpart, ← d.begun, FileTree.toOption_read herrors]
  have hfound : w₂.files.textAt? d.area.errors =
      if d.run.skipped = 0 then leftover? d.temp w₀.files else some (StagedOutput.errorsText d.log.failures) := by
    rw [d.staged.errors, hleftover]
    simp only [hskipped]
  refine ⟨e₁, w₁, e₂, w₂, _, w₃, now, hworks, heq, d, handed, hhands, ?_, hfound ▸ hstaged, ?_, ?_⟩
  · rw [heq]
    exact Entries.get?_put_self _ _ _
  · rw [errors_handed hstaged, hfound]
    by_cases hzero : d.run.skipped = 0
    · rw [if_pos hzero]
      simp [hzero]
    · rw [if_neg hzero]
      simp [hzero]
  · intro outputDir hstore file hfile
    exact copies_kept hstore d.staged d.recordsAt hstored hhands hstaged hfile

end ExportJob

namespace SampleExport

/-- An earlier run has left an errors file. -/
def staleTree : FileTree where
  nodes := [(["work"], .directory), (["work", "ferry"], .directory),
    (["work", "ferry", "J1-orders_errors.csv"], .file ['o', 'l', 'd'])]
  current := []

def staleEnd : Run Unit × Worker Unit := (start (config "out")).goOn surroundings (fun _ => false) 20 (worker staleTree)

private theorem stale : summary "out/J1-orders_errors.csv" staleEnd.1 staleEnd.2 =
    (true, .completed, some "out/J1-orders.jsonl;out/J1-orders_errors.csv", some ['o', 'l', 'd']) := by
  decide +kernel

private theorem nothing_skipped : staleEnd.1.execution.steps.map (·.skipped) = [0] := by decide +kernel

/-- An export that has skipped nothing stores and lists the errors file of another run. -/
theorem stale_errors_are_stored : ∃ r w, staleEnd = (r, w) ∧ r.isEnded ∧ r.execution.status = .completed ∧
    r.execution.steps.map (·.skipped) = [0] ∧
    (Summary.ofExecution r.execution).files = ["out/J1-orders.jsonl", "out/J1-orders_errors.csv"] ∧
    (w.files.read "out/J1-orders_errors.csv").toOption = some ['o', 'l', 'd'] := by
  have hskipped := nothing_skipped
  obtain ⟨r, w, hend, hended, hcompleted, hcontext, hread⟩ := summary_eq stale
  rw [hend] at hskipped
  refine ⟨r, w, hend, hended, hcompleted, hskipped, ?_, hread⟩
  change OutputFiles.ofExecution r.execution = _
  rw [OutputFiles.ofExecution, hcontext]
  decide

theorem stale_errors_are_handed_over : ∃ r w, staleEnd = (r, w) ∧ ∃ e₁ w₁ e₂ w₂ w₃,
    ∃ d : (job "out" sample).Staging 5 e₁ w₁ e₂ w₂, ∃ handed,
      ExportJob.HandsOver d staleTree (Entries.get? r.execution.context Key.outputFiles) w₃ handed := by
  obtain ⟨r, w, hend, hended, hcompleted, -, -⟩ := summary_eq stale
  have hspare : surroundings.SpareFiles := ⟨fun _ => rfl, fun _ _ h => h⟩
  have hservices : (job "out" sample).ServicesKeep Worker.SameFiles :=
    ⟨fun _ => .pure .refl _, fun _ _ => .throw .refl _⟩
  have hkeeps (temp : String) : (job "out" sample).KeepsStaged temp := ExportJob.keepsStaged_of_copies rfl
  obtain ⟨e₁, w₁, e₂, w₂, e₃, w₃, now, -, -, d, handed, hhands⟩ :=
    ExportJob.completed_hands_over hspare hservices hkeeps rfl rfl hend hended hcompleted
  exact ⟨r, w, hend, e₁, w₁, e₂, w₂, w₃, d, handed, hhands⟩

end SampleExport
end BatchExport
