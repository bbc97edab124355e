import BatchExport.Proofs.Export.Exhausting
import BatchExport.Proofs.Files.Writing
import BatchExport.Proofs.Job.Progress

/-! Exports that nothing keeps from completing. Main statement: over a collection that does not change, with a service
that fails only where it finds nothing, an export that nobody stops completes unless its files or its storage fail. -/
namespace BatchExport

/-- Nobody has asked for a stop meanwhile. -/
def Worker.StaysUnasked {ω : Type} (id : ExecutionId) (w w' : Worker ω) : Prop :=
  w.stopRequested id = false → w'.stopRequested id = false

namespace StagedOutput

variable {o : StagedOutput} {t t' : FileTree} {path : String}

private theorem run_open (path : String) (t : FileTree) : (open_ path).run t =
    some (((FileTree.create path t).1.map fun location => ⟨location, 0, []⟩).mapError (createFailure path),
      (FileTree.create path t).2) := by
  rw [open_, Effect.run_bind, FileTree.Change.effect, Effect.run_ofStep, Option.bind_some]
  cases FileTree.create path t with
  | mk result t' => cases result <;> rfl

/-- Where the directories are the same, a file cannot be made for the same reason. -/
theorem open_congr {base : List Path.Piece} {name : Path.Piece} {dir : Location} {f : Failure} {t'' : FileTree}
    (h : t.SameDirectories t') (hpath : Path.EndsIn path base name)
    (hwalk : base.foldlM t.follow (t.start path) = .ok dir) (hdir : t.node? dir = some .directory)
    (hfailed : (open_ path).run t' = some (.error f, t'')) :
    ∃ t₁, (open_ path).run t = some (.error f, t₁) := by
  rw [run_open, FileTree.create_congr h hpath hwalk hdir, Option.some.injEq, Prod.mk.injEq] at hfailed
  exact ⟨_, by rw [run_open, hfailed.1]⟩

theorem create_returns (recordsPath errorsPath : String) (t : FileTree) :
    (create recordsPath errorsPath).Returns t fun _ _ => True := by
  have hopen (t : FileTree) : (open_ recordsPath).Returns t fun _ _ => True := ⟨_, _, run_open recordsPath t, trivial⟩
  have hrest (t : FileTree) : (do return { recordsPath, records := ← open_ recordsPath, errorsPath, errors := none }
      : Effect FileTree StagedOutput).Returns t fun _ _ => True :=
    .bind (hopen t) (fun _ _ _ => .pure trivial) fun _ _ _ => trivial
  rw [create]
  split
  · rename_i dir _
    have hdirs : ((FileTree.makeDirs dir).effect (createFailure dir)).Returns t fun _ _ => True :=
      ⟨_, _, Effect.run_ofStep _ _, trivial⟩
    exact .bind hdirs (fun _ t _ => hrest t) fun _ _ _ => trivial
  · exact hrest t

private theorem pushRecords_errorsPath (items : List Json) (o : StagedOutput) (t : FileTree) :
    (pushRecords items o t).1.errorsPath = o.errorsPath := by
  induction items generalizing o t with
  | nil => rfl
  | cons item items ih => exact ih _ _

theorem write_returns (items : List Json) : (write items).Returns (o, t) fun r s =>
    r = .ok () ∧ s.1.errorsPath = o.errorsPath ∧ t.SameDirectories s.2 :=
  .ofChange ⟨rfl, pushRecords_errorsPath items o t,
    write_keeps FileTree.SameDirectories.isKeptByWriting items (o, t) _ _ (Effect.run_ofChange _ _)⟩

private theorem flush_errorsPath (o : StagedOutput) (t : FileTree) : (flush o t).1.errorsPath = o.errorsPath := by
  rw [flush]
  dsimp only
  split <;> rfl

theorem close_returns : close.Returns (o, t) fun r s =>
    r = .ok () ∧ s.1.errorsPath = o.errorsPath ∧ t.SameDirectories s.2 :=
  .ofChange ⟨rfl, flush_errorsPath o t,
    close_keeps FileTree.SameDirectories.isKeptByWriting (o, t) _ _ (Effect.run_ofChange _ _)⟩

/-- A row can be written unless there is no errors file and none can be made. -/
theorem writeSkipped_returns (failure : Failure) : (writeSkipped failure).Returns (o, t) fun r s =>
    s.1.errorsPath = o.errorsPath ∧ t.SameDirectories s.2 ∧
      ∀ f, r = .error f → ∃ t', (open_ o.errorsPath).run t = some (.error f, t') := by
  have hfile : errorsFile.Returns (o, t) fun r s => s.1.errorsPath = o.errorsPath ∧
      ∀ f, r = .error f → ∃ t', (open_ o.errorsPath).run t = some (.error f, t') := by
    rw [Effect.Returns, errorsFile, Effect.run_ofRun]
    dsimp only
    split
    · exact ⟨_, _, rfl, rfl, fun _ hf => by cases hf⟩
    · cases hopen : (open_ o.errorsPath).run t with
      | none =>
        rw [run_open] at hopen
        cases hopen
      | some opened =>
        obtain ⟨r, t'⟩ := opened
        cases r with
        | error f => exact ⟨_, _, rfl, rfl, fun f' hf' => by cases hf'; exact ⟨t', rfl⟩⟩
        | ok file => exact ⟨_, _, rfl, rfl, fun _ hf => by cases hf⟩
  have hreturns : (writeSkipped failure).Returns (o, t) fun r s => s.1.errorsPath = o.errorsPath ∧
      ∀ f, r = .error f → ∃ t', (open_ o.errorsPath).run t = some (.error f, t') := by
    refine .bind hfile ?_ ?_
    · rintro file s ⟨hpath, -⟩
      exact .ofChange ⟨hpath, fun _ hf => by cases hf⟩
    · rintro f s ⟨hpath, hf⟩
      exact ⟨hpath, fun f' hf' => by cases hf'; exact hf f rfl⟩
  obtain ⟨r, s, hrun, hpath, hfailed⟩ := hreturns
  exact ⟨r, s, hrun, hpath, writeSkipped_keeps FileTree.SameDirectories.isKeptByWriting failure (o, t) _ _ hrun, hfailed⟩

end StagedOutput

namespace ExportJob

variable {ω : Type} {j : ExportJob ω} {fuel : Nat} {temp : String} {e : Execution} {w : Worker ω}
  {collection : List Json} {byId : ReferenceKind → String → Except Failure Json} {id : ExecutionId}

/-- A failure of the files or of the storage, as it comes up in an export. -/
inductive IsOutputFailure (j : ExportJob ω) (fuel : Nat) (temp : String) (e : Execution) (w : Worker ω) : Failure → Prop
  /-- The records file cannot be made. -/
  | records {f : Failure} {files : FileTree}
      (failed : (StagedOutput.create (WorkPath.records temp) (WorkPath.errors temp)).run w.files =
        some (.error f, files)) : IsOutputFailure j fuel temp e w f
  /-- The errors file cannot be made beside it. -/
  | errors {f : Failure} {output : StagedOutput} {files files' : FileTree}
      (made : (StagedOutput.create (WorkPath.records temp) (WorkPath.errors temp)).run w.files =
        some (.ok output, files))
      (failed : (StagedOutput.open_ (WorkPath.errors temp)).run files = some (.error f, files')) :
      IsOutputFailure j fuel temp e w (.step j.stepName f)
  /-- The staged files cannot be found or stored. -/
  | store {f : Failure} {x x' : Execution × Worker ω} (staged : (j.staged fuel).run (e, w) = some (.ok temp, x))
      (failed : (j.storeStaged [WorkPath.records temp, WorkPath.errors temp]).run x = some (.error f, x')) :
      IsOutputFailure j fuel temp e w f

/-- What the step of an export needs to come to its end. -/
private def prospect (j : ExportJob ω) (collection : List Json) (id : ExecutionId) (temp : String) (files : FileTree) :
    Prospect (ExportStage ω) where
  holds x := (∃ delivered, j.ReadsFrom collection delivered x) ∧ x.worker.stopRequested id = false ∧
    x.output.errorsPath = WorkPath.errors temp ∧ files.SameDirectories x.worker.files
  left x := match x.source with
    | .offset s => (s.unread collection).length
    | .cursor _ => 0
  blames f := ∃ files', (StagedOutput.open_ (WorkPath.errors temp)).run files = some (.error f, files')

section Step

variable (h : j.IsSteady collection byId) (hfound : ∀ kind id f, byId kind id = .error f → f.isNotFound = true)
  (hunasked : j.ServicesKeep (Worker.StaysUnasked id)) {files : FileTree}
include h hunasked

private theorem next_meets (fuel : Nat) {x : ExportStage ω} (hx : (j.prospect collection id temp files).holds x) :
    (j.flow fuel id).next.Returns x fun answer x' =>
      (j.prospect collection id temp files).holds x' ∧
      (j.prospect collection id temp files).left x' ≤ (j.prospect collection id temp files).left x ∧
      (∀ item, answer = .ok (some item) →
        (j.prospect collection id temp files).left x' < (j.prospect collection id temp files).left x) ∧
      ∀ f, answer = .error f → (j.prospect collection id temp files).blames f := by
  obtain ⟨⟨delivered, hreads⟩, hgoing, hpath, hdirs⟩ := hx
  obtain ⟨item?, x', s, s', hsource, hsource', hnext, hpull, hless, -⟩ := next_reads h.serves fuel id hreads
  obtain ⟨houtput, hfiles⟩ := next_keeps h.sameFiles .refl .trans fuel id _ _ _ hnext
  obtain ⟨-, hstop⟩ := next_keeps hunasked (fun _ h => h) (fun ha hb hw => hb (ha hw)) fuel id _ _ _ hnext
  refine ⟨_, x', hnext, ⟨⟨_, s', hsource', hpull⟩, hstop hgoing, ?_, ?_⟩, ?_, ?_, fun f hf => nomatch hf⟩
  · rw [houtput]
    exact hpath
  · rw [hfiles]
    exact hdirs
  · dsimp only [prospect]
    rw [hsource, hsource']
    dsimp only
    omega
  · intro item hitem
    cases hitem
    dsimp only [prospect]
    rw [hsource, hsource']
    dsimp only
    rw [Option.toList_some, List.length_singleton] at hless
    omega

include hfound in
private theorem process_meets (fuel : Nat) (record : Json) : ((j.flow fuel id).process record).Meets
    { j.prospect collection id temp files with
      blames := fun f => f.isSkippable ∨ (j.prospect collection id temp files).blames f } := by
  rintro x ⟨⟨delivered, s, hsource, hreads⟩, hgoing, hpath, hdirs⟩
  have hreturns : ((j.flow fuel id).process record).Returns x
      fun r x' => x'.source = x.source ∧ ∀ f, r = .error f → f.isSkippable = true := by
    refine .map (.onPart ((Enrichment.process_returns h.answers hfound record _).mono fun r _ hskippable => ?_))
    refine ⟨rfl, fun f hf => ?_⟩
    cases r with
    | ok value => cases hf
    | error cause =>
      cases hf
      exact hskippable f rfl
  obtain ⟨r, x', hrun, hsource', hskippable⟩ := hreturns
  obtain ⟨houtput, hfiles⟩ := process_keeps h.sameFiles .refl .trans (fun _ hw => hw) fuel id record _ _ _ hrun
  obtain ⟨-, hstop⟩ := process_keeps hunasked (fun _ h => h) (fun ha hb hw => hb (ha hw)) (fun _ hw => hw) fuel id
    record _ _ _ hrun
  refine ⟨r, x', hrun, ⟨⟨delivered, s, hsource'.trans hsource, hreads⟩, hstop hgoing, ?_, ?_⟩, ?_,
    fun f hf => .inl (hskippable f hf)⟩
  · rw [houtput]
    exact hpath
  · rw [hfiles]
    exact hdirs
  · dsimp only [prospect]
    rw [hsource']

omit h hunasked in
/-- What the writer does leaves the source and the stop flag alone. -/
private theorem output_meets {write : Effect (StagedOutput × FileTree) Unit}
    (hwrite : ∀ o t, write.Returns (o, t) fun r s => s.1.errorsPath = o.errorsPath ∧ t.SameDirectories s.2 ∧
      ∀ f, r = .error f → ∃ t', (StagedOutput.open_ o.errorsPath).run t = some (.error f, t'))
    {area : StagingArea temp} (hgrown : area.tree.Grows files) :
    (ExportStage.onOutput write).Meets (j.prospect collection id temp files) := by
  rintro x ⟨hreads, hgoing, hpath, hdirs⟩
  refine .onPart ((hwrite x.output x.worker.files).mono ?_)
  rintro r ⟨output, files'⟩ ⟨hpath', hdirs', hfailed⟩
  refine ⟨⟨hreads, hgoing, hpath'.trans hpath, hdirs.trans hdirs'⟩, Nat.le_refl _, fun f hf => ?_⟩
  -- The errors file could not have been made at the start either.
  obtain ⟨t', hopen⟩ := hfailed f hf
  rw [hpath] at hopen
  exact StagedOutput.open_congr hdirs (WorkPath.endsIn_errors temp) (area.walk_of_grows hgrown (by decide))
    (hgrown.directories _ area.isDirectory) hopen

include hfound in
private theorem flow_meets {area : StagingArea temp} (hgrown : area.tree.Grows files) (fuel : Nat) :
    (j.flow fuel id).Meets (j.prospect collection id temp files) where
  next _ hx := next_meets h hunasked fuel hx
  process record := process_meets h hfound hunasked fuel record
  write items := output_meets (fun o t => (StagedOutput.write_returns items).mono
    fun r s ⟨hok, hpath, hdirs⟩ => ⟨hpath, hdirs, fun f hf => by cases hok.symm.trans hf⟩) hgrown
  writeSkipped f := output_meets (fun o t => StagedOutput.writeSkipped_returns f) hgrown
  close := output_meets (fun o t => StagedOutput.close_returns.mono
    fun r s ⟨hok, hpath, hdirs⟩ => ⟨hpath, hdirs, fun f hf => by cases hok.symm.trans hf⟩) hgrown

end Step

private theorem stage_of_body (hroom : max j.source.chunkSize 1 ≤ j.room) {source : RecordSource} {output : StagedOutput} {x : ExportStage ω} {run : StepRun}
    {ending : Except Failure ChunkStep.Ending}
    (hbody : ((j.step fuel e.id).body fuel).run ({ name := j.stepName }, ⟨source, output, w⟩) =
      some (ending, run, x)) :
    ∃ e', e'.id = e.id ∧ (j.stage fuel source output).run (e, w) =
      some ((ending.map fun _ => ()).mapError (.step j.stepName), e', x.worker) := by
  have hstage : (j.stage fuel source output).run (e, w) =
      (((j.step fuel e.id).execute fuel w.now).run (e, ⟨source, output, w⟩)).map fun p => (p.1, p.2.1, p.2.2.worker) := rfl
  rw [hstage, ChunkStep.run_execute (s := j.step fuel e.id) hroom, show (j.step fuel e.id).name = j.stepName from rfl, hbody]
  cases ending with
  | ok ending => exact ⟨e.addStep (run.finish ending.status w.now), rfl, rfl⟩
  | error cause => exact ⟨e.addStep (run.finish .failed w.now), rfl, rfl⟩

/-- The step of an export comes to its end, and fails only if the errors file cannot be made. -/
private theorem stage_returns (h : j.IsSteady collection byId)
    (hfound : ∀ kind id f, byId kind id = .error f → f.isNotFound = true)
    (hunasked : j.ServicesKeep (Worker.StaysUnasked e.id)) (hgoing : w.stopRequested e.id = false)
    (hfit : j.OffsetsFit collection) (hroom : max j.source.chunkSize 1 ≤ j.room) {source : RecordSource}
    {output : StagedOutput} (hsource : source = .offset j.offsetSource)
    {area : StagingArea temp} (hstages : StagedOutput.Stages area output w.files [] [])
    (hfuel : (collection.drop j.source.startOffset.toNat).length < fuel) :
    (j.stage fuel source output).Returns (e, w) fun r x => x.1.id = e.id ∧ x.2.stopRequested e.id = false ∧
      ∀ f, r = .error f → ∃ cause files', f = .step j.stepName cause ∧
        (StagedOutput.open_ (WorkPath.errors temp)).run w.files = some (.error cause, files') := by
  have hstart : (j.prospect collection e.id temp w.files).holds ⟨source, output, w⟩ :=
    ⟨⟨[], hsource ▸ readsFrom_start hfit output w⟩, hgoing, hstages.errorsPath, .refl _⟩
  have hleft : (j.prospect collection e.id temp w.files).left ⟨source, output, w⟩ < fuel := by
    dsimp only [prospect]
    rw [hsource]
    exact hfuel
  have hflow : (j.step fuel e.id).flow.Meets _ := flow_meets h hfound hunasked hstages.grown fuel
  obtain ⟨ending, ⟨run, x⟩, hbody, ⟨-, hstop, -⟩, hblamed⟩ :=
    ChunkStep.body_meets hflow hstart hleft { name := j.stepName }
  obtain ⟨e', hid, hrun⟩ := stage_of_body hroom hbody
  refine ⟨_, _, hrun, hid, hstop, fun f hf => ?_⟩
  cases ending with
  | ok ending => cases hf
  | error cause =>
    cases hf
    obtain ⟨files', hopen⟩ := hblamed cause rfl
    exact ⟨cause, files', rfl, hopen⟩

/-- Copying into a directory comes to an end and does not ask for a stop. -/
theorem store_ends_of_copies {outputDir : String}
    (hstore : j.store = fun path => Worker.onFiles (Storage.store outputDir path)) (path : String) :
    (j.store path).Ends (Worker.StaysUnasked id) := by
  rw [hstore]
  exact .onPart (Storage.store_ends outputDir path) fun _ _ _ hw => hw

/-- To store what is staged takes some calls of the storage. -/
private theorem storeStaged_ends (hstore : ∀ path, (j.store path).Ends (Worker.StaysUnasked id)) (paths : List String) :
    (j.storeStaged paths).Ends fun x y => y.1 = x.1 ∧ x.2.StaysUnasked id y.2 := by
  have htrans {x y z : Execution × Worker ω} (hxy : y.1 = x.1 ∧ x.2.StaysUnasked id y.2)
      (hyz : z.1 = y.1 ∧ y.2.StaysUnasked id z.2) : z.1 = x.1 ∧ x.2.StaysUnasked id z.2 :=
    ⟨hyz.1.trans hxy.1, fun hx => hyz.2 (hxy.2 hx)⟩
  have hpure (refs : List String) : (pure refs : Effect (Execution × Worker ω) (List String)).Ends
      fun x y => y.1 = x.1 ∧ x.2.StaysUnasked id y.2 := fun _ => .pure ⟨rfl, fun hx => hx⟩
  induction paths with
  | nil => exact hpure []
  | cons path rest ih =>
    rw [storeStaged]
    refine .bind htrans (fun x => .onPart ⟨_, _, Effect.run_ofStep _ _, rfl, fun hx => hx⟩) fun there => ?_
    split
    · exact ih
    · exact .bind htrans (fun x => .onPart ((hstore path x.2).mono fun _ _ hw => ⟨rfl, hw⟩)) fun ref =>
        .bind htrans ih fun more => hpure (ref :: more)

private theorem setUp_returns (hpaging : j.source.paging = .offset)
    (htemp : e.parameters.nonBlank? Key.tempOutputPath = some temp) :
    j.setUp.Returns (e, w) fun r x => (∃ files, x = (e, { w with files })) ∧
      ∀ f, r = .error f → j.IsOutputFailure fuel temp e w f := by
  have hparameter : (tempPath : Effect (Execution × Worker ω) String).Returns (e, w) fun r x =>
      r = .ok temp ∧ x = (e, w) := by
    refine ⟨.ok temp, (e, w), ?_, rfl, rfl⟩
    rw [tempPath, Effect.run_bind, Effect.run_get, Option.bind_some]
    dsimp only
    rw [htemp]
    rfl
  obtain ⟨r, files, hcreate, -⟩ :=
    StagedOutput.create_returns (WorkPath.records temp) (WorkPath.errors temp) w.files
  have hfiles : (onFiles (StagedOutput.create (WorkPath.records temp) (WorkPath.errors temp))).Returns (e, w)
      fun r' x => r' = r ∧ x = (e, { w with files }) := .onPart ⟨r, files, hcreate, rfl, rfl⟩
  rw [setUp]
  refine .bind hparameter ?_ fun f x hfailed => by cases hfailed.1
  rintro _ _ ⟨⟨⟩, rfl⟩
  refine .bind hfiles ?_ ?_
  · rintro output _ ⟨-, rfl⟩
    rw [RecordSource.ofSettings, hpaging]
    exact .pure ⟨⟨files, rfl⟩, fun _ hf => by cases hf⟩
  · rintro f _ ⟨rfl, rfl⟩
    exact ⟨⟨files, rfl⟩, fun f' hf' => by cases hf'; exact .records hcreate⟩

private theorem staged_returns (h : j.IsSteady collection byId)
    (hfound : ∀ kind id f, byId kind id = .error f → f.isNotFound = true)
    (hunasked : j.ServicesKeep (Worker.StaysUnasked e.id))
    (htemp : e.parameters.nonBlank? Key.tempOutputPath = some temp) (hgoing : w.stopRequested e.id = false)
    (hfit : j.OffsetsFit collection) (hroom : max j.source.chunkSize 1 ≤ j.room)
    (hfuel : (collection.drop j.source.startOffset.toNat).length < fuel) :
    (j.staged fuel).Returns (e, w) fun r x => x.1.id = e.id ∧ x.2.stopRequested e.id = false ∧
      (∀ f, r = .error f → j.IsOutputFailure fuel temp e w f) ∧ ∀ temp', r = .ok temp' → temp' = temp := by
  obtain ⟨r, _, hsetUp, ⟨files, rfl⟩, hfailed⟩ := setUp_returns h.paging htemp
  cases r with
  | error f =>
    refine ⟨.error f, (e, { w with files }), ?_, rfl, hgoing, fun f' hf' => ?_, fun _ hok => nomatch hok⟩
    · rw [staged, Effect.run_bind, hsetUp]
      rfl
    · cases hf'
      exact hfailed f rfl
  | ok parts =>
    obtain ⟨temp', source, output⟩ := parts
    obtain ⟨hparameter, -, files', heq, hcreate⟩ := setUp_ok hsetUp
    obtain rfl : temp' = temp := Option.some.inj (hparameter.symm.trans htemp)
    obtain rfl : files' = files := (congrArg Worker.files heq).symm
    obtain ⟨area, -, hstages, -⟩ := StagedOutput.create_ok hcreate
    obtain ⟨r, x, hstage, hid, hstop, hfailed⟩ :=
      stage_returns (w := { w with files := files' }) h hfound hunasked hgoing hfit hroom (setUp_source h.paging hsetUp)
        hstages hfuel
    refine ⟨r.map fun _ => temp', x, ?_, hid, hstop, fun f hf => ?_, fun temp hok => ?_⟩
    · rw [staged, Effect.run_bind, hsetUp, Option.bind_some]
      dsimp only
      rw [Effect.run_bind, hstage]
      cases r <;> rfl
    · cases r with
      | ok => cases hf
      | error cause =>
        cases hf
        obtain ⟨cause, opened, rfl, hopen⟩ := hfailed f rfl
        exact .errors hcreate hopen
    · cases r with
      | ok =>
        cases hok
        rfl
      | error cause => cases hok

private theorem finish_returns (hstore : ∀ path, (j.store path).Ends (Worker.StaysUnasked id))
    {x : Execution × Worker ω} (hid : x.1.id = id) (hgoing : x.2.stopRequested id = false) :
    (j.finish temp).Returns x fun r y => y.2.stopRequested y.1.id = false ∧ ∀ f, r = .error f →
      ∃ x', (j.storeStaged [WorkPath.records temp, WorkPath.errors temp]).run x = some (.error f, x') := by
  obtain ⟨r, y, hstored, hsame, hstop⟩ := storeStaged_ends hstore [WorkPath.records temp, WorkPath.errors temp] x
  have hstopped : (isStopped : Effect (Execution × Worker ω) Bool).Returns x fun r y => r = .ok false ∧ y = x := by
    refine .ofChange ⟨?_, rfl⟩
    dsimp only
    rw [hid, hgoing]
  have hend : y.2.stopRequested y.1.id = false := by
    rw [hsame, hid]
    exact hstop hgoing
  rw [finish]
  have hstoring : (j.storeStaged [WorkPath.records temp, WorkPath.errors temp]).Returns x
      fun r' y' => r' = r ∧ y' = y := ⟨r, y, hstored, rfl, rfl⟩
  refine .bind hstopped ?_ fun f x' hfailed => by cases hfailed.1
  rintro stopped x' ⟨hanswer, hx'⟩
  cases hanswer
  rw [hx', if_neg Bool.false_ne_true]
  refine .bind hstoring ?_ ?_
  · rintro refs _ ⟨rfl, rfl⟩
    exact .ofChange ⟨hend, fun _ hf => nomatch hf⟩
  · rintro f _ ⟨rfl, rfl⟩
    refine ⟨hend, fun f' hf' => ?_⟩
    cases hf'
    exact ⟨_, hstored⟩

/-- An export comes to its end. It has completed then, unless its files or its storage have failed. -/
theorem execute_returns (h : j.IsSteady collection byId)
    (hfound : ∀ kind id f, byId kind id = .error f → f.isNotFound = true)
    (hunasked : j.ServicesKeep (Worker.StaysUnasked e.id))
    (hstore : ∀ path, (j.store path).Ends (Worker.StaysUnasked e.id))
    (htemp : e.parameters.nonBlank? Key.tempOutputPath = some temp) (hgoing : w.stopRequested e.id = false)
    (hfit : j.OffsetsFit collection) (hroom : max j.source.chunkSize 1 ≤ j.room)
    (hfuel : (collection.drop j.source.startOffset.toNat).length < fuel) :
    (j.execute fuel).Returns (e, w) fun r x => x.2.stopRequested x.1.id = false ∧
      ∀ f, r = .error f → j.IsOutputFailure fuel temp e w f := by
  obtain ⟨r, x, hstaged, hid, hstop, hfailed, htold⟩ := staged_returns h hfound hunasked htemp hgoing hfit hroom hfuel
  rw [execute_staged]
  have hstaging : (j.staged fuel).Returns (e, w) fun r' x' => r' = r ∧ x' = x := ⟨r, x, hstaged, rfl, rfl⟩
  refine .bind hstaging ?_ ?_
  · rintro temp' _ ⟨rfl, rfl⟩
    obtain rfl := htold temp' rfl
    refine (finish_returns hstore hid hstop).mono fun r y ⟨hend, hfailed⟩ => ⟨hend, fun f hf => ?_⟩
    obtain ⟨x', hstore⟩ := hfailed f hf
    exact .store hstaged hstore
  · rintro f _ ⟨rfl, rfl⟩
    refine ⟨by rw [hid]; exact hstop, fun f' hf' => ?_⟩
    cases hf'
    exact hfailed f rfl

end ExportJob
end BatchExport
