import BatchExport.Proofs.Export.Delivery
import BatchExport.Proofs.Export.Outcomes
import BatchExport.Proofs.Paging.OffsetReading

/-! Exports of a collection that does not change and is served by offset. Main statement: an export that has staged its
records without a stop has pulled all that is wanted, and what became of each depends on the cache at the start. -/
namespace BatchExport

/-- Neither the files nor the cache have changed. -/
def Worker.SameStock {ω : Type} (w w' : Worker ω) : Prop := w'.files = w.files ∧ w'.cache = w.cache

namespace ExportJob

variable {ω : Type} {j : ExportJob ω} {fuel : Nat} {temp : String} {e e' : Execution} {w w' : Worker ω}
  {collection : List Json} {byId : ReferenceKind → String → Except Failure Json} {id : ExecutionId}

/-- The export up to the moment when its staged files are stored. Answers what their names start with. -/
def staged (j : ExportJob ω) (fuel : Nat) : Effect (Execution × Worker ω) String := do
  let (temp, source, output) ← j.setUp
  j.stage fuel source output
  return temp

theorem execute_staged (j : ExportJob ω) (fuel : Nat) : j.execute fuel = j.staged fuel >>= j.finish := by
  rw [execute_eq, staged]
  simp only [bind_assoc, pure_bind]

/-- The records that the export is to deliver. -/
def wanted (j : ExportJob ω) (collection : List Json) : List Json :=
  j.source.maxItems.elim (collection.drop j.source.startOffset.toNat) (collection.drop j.source.startOffset.toNat).take

/-- The source of an export that is paged by offset. -/
def offsetSource (j : ExportJob ω) : OffsetSource Json :=
  .new j.sourceName j.source.pageSize j.source.startOffset j.source.maxItems j.source.rangeStart j.source.rangeEnd

/-- The fetches that it takes to deliver all do not take the offset past its greatest value. -/
def OffsetsFit (j : ExportJob ω) (collection : List Json) : Prop :=
  j.source.startOffset.toNat +
    max j.source.pageSize 1 * j.offsetSource.fetchesForAll (collection.drop j.source.startOffset.toNat) < 2 ^ 64

instance (j : ExportJob ω) (collection : List Json) : Decidable (j.OffsetsFit collection) := Nat.decLt _ _

/-- The service of an export over an unchanging collection. -/
structure IsSteady (j : ExportJob ω) (collection : List Json) (byId : ReferenceKind → String → Except Failure Json) :
    Prop where
  paging : j.source.paging = .offset
  serves : ∀ request, j.fetch.Serves collection request
  answers : j.lookup.AnswersIds byId
  spares : j.ServicesKeep Worker.SameStock

theorem IsSteady.sameFiles (h : j.IsSteady collection byId) : j.ServicesKeep Worker.SameFiles where
  fetch r w := (h.spares.fetch r w).mono fun _ _ hsame => hsame.1
  byId kind key w := (h.spares.byId kind key w).mono fun _ _ hsame => hsame.1

/-- The source that an export reads. -/
theorem setUp_source (hpaging : j.source.paging = .offset) {source : RecordSource} {output : StagedOutput}
    {x x' : Execution × Worker ω} (hrun : j.setUp.run x = some (.ok (temp, source, output), x')) :
    source = .offset j.offsetSource := by
  obtain ⟨temp, y, -, hrest⟩ := Effect.bind_ok hrun
  obtain ⟨output, z, -, hrest⟩ := Effect.bind_ok hrest
  rw [RecordSource.ofSettings, hpaging] at hrest
  cases hrest
  rfl

/-- How far the source has come, in an export over an unchanging collection. -/
def ReadsFrom (j : ExportJob ω) (collection delivered : List Json) (x : ExportStage ω) : Prop :=
  ∃ s, x.source = .offset s ∧
    s.Reads collection j.source.startOffset.toNat j.source.maxItems delivered

/-- The log of an export tells how far its source has come, and what became of the records so far. -/
private structure Traces (j : ExportJob ω) (collection : List Json)
    (byId : ReferenceKind → String → Except Failure Json) (start : ReferenceCache)
    (y : FlowLog Json Json × ExportStage ω) : Prop where
  source : j.ReadsFrom collection y.1.delivered y.2
  processed : Enrichment.Outcomes byId j.source.enrich j.source.idField start y.1.processed y.2.worker.cache

theorem readsFrom_start (hfit : j.OffsetsFit collection) (output : StagedOutput) (w : Worker ω) :
    j.ReadsFrom collection [] ⟨.offset j.offsetSource, output, w⟩ :=
  ⟨_, rfl, OffsetSource.reads_new _ _ _ _ _ _ _ hfit⟩

/-- A pull of an export over an unchanging collection. -/
theorem next_reads (hserves : ∀ request, j.fetch.Serves collection request) (fuel : Nat) (id : ExecutionId)
    {delivered : List Json} {x : ExportStage ω} (h : j.ReadsFrom collection delivered x) :
    ∃ item? x' s s', x.source = .offset s ∧ x'.source = .offset s' ∧
      (j.flow fuel id).next.run x = some (.ok item?, x') ∧
      OffsetSource.Pull collection j.source.startOffset.toNat j.source.maxItems delivered s item? s' := by
  obtain ⟨s, hsource, hreads⟩ := h
  obtain ⟨item?, s', w', hnext, hpull⟩ := OffsetSource.next_reads hreads (hserves s.request) x.worker
  refine ⟨item?, { x with source := .offset s', worker := w' }, s, s', hsource, rfl, ?_, hpull⟩
  rw [flow]
  dsimp only
  rw [ExportStage.onSource, Effect.onPart, Effect.run_ofRun, hsource, RecordSource.next, Effect.run_ofRun]
  dsimp only
  rw [hnext]
  rfl

section Traces

variable (h : j.IsSteady collection byId) {start : ReferenceCache}
include h

private theorem next_traces (fuel : Nat) (id : ExecutionId) {r : Except Failure (Option Json)}
    {y y' : FlowLog Json Json × ExportStage ω} (ht : j.Traces collection byId start y)
    (hrun : (j.flow fuel id).logged.next.run y = some (r, y')) :
    j.Traces collection byId start y' ∧
      (r = .ok none → y'.1.delivered = j.wanted collection) := by
  obtain ⟨log, x⟩ := y
  obtain ⟨item?, x', s, s', -, hsource', hnext, hreads, -, hall⟩ := next_reads h.serves fuel id ht.source
  have hrun' : (j.flow fuel id).logged.next.run (log, x) = some (.ok item?, log.deliver (.ok item?), x') := by
    rw [ItemFlow.logged]
    dsimp only
    rw [Effect.run_ofRun]
    dsimp only
    rw [hnext]
    rfl
  cases hrun.symm.trans hrun'
  have hdelivered : (log.deliver (.ok item?)).delivered = log.delivered ++ item?.toList := by
    cases item? with
    | none => exact (List.append_nil _).symm
    | some item => rfl
  have hprocessed : (log.deliver (.ok item?)).processed = log.processed := by
    cases item? <;> rfl
  have hcache : x'.worker.cache = x.worker.cache :=
    (next_keeps h.spares (fun _ => ⟨rfl, rfl⟩) (fun ha hb => ⟨hb.1.trans ha.1, hb.2.trans ha.2⟩) fuel id _ _ _
      hnext).2.2
  refine ⟨⟨⟨s', hsource', ?_⟩, ?_⟩, ?_⟩
  · rw [hdelivered]
    exact hreads
  · rw [hprocessed, hcache]
    exact ht.processed
  · intro hnone
    cases hnone
    exact hall rfl

private theorem process_traces (fuel : Nat) (id : ExecutionId) (record : Json)
    {r : Except Failure (Option Json)} {y y' : FlowLog Json Json × ExportStage ω}
    (ht : j.Traces collection byId start y) (hrun : ((j.flow fuel id).logged.process record).run y = some (r, y')) :
    j.Traces collection byId start y' := by
  obtain ⟨log, x⟩ := y
  obtain ⟨⟨outcome, x'⟩, hprocess, heq⟩ := Option.map_eq_some_iff.mp hrun
  cases heq
  rw [flow] at hprocess
  dsimp only at hprocess
  rw [Effect.run_map] at hprocess
  obtain ⟨⟨answer, x₁⟩, hcached, heq⟩ := Option.map_eq_some_iff.mp hprocess
  cases heq
  obtain ⟨⟨cache, w'⟩, hrecord, rfl⟩ := Effect.onPart_some hcached
  refine ⟨ht.source, ht.processed.snoc ?_⟩
  -- The same happens against the answers alone.
  have herased : (Enrichment.process j.lookup j.source.enrich j.source.idField record).Erases _ _ :=
    Enrichment.process_erases h.answers record
  have hsame := herased (x.worker.cache, x.worker)
  rw [hrecord] at hsame
  exact hsame.symm

private theorem flow_traces (fuel : Nat) (id : ExecutionId) :
    (j.flow fuel id).logged.Keeps fun y y' => j.Traces collection byId start y → j.Traces collection byId start y' := by
  have houtput := output_logged (j.Traces collection byId start) fun _ _ _ _ ht => ⟨ht.source, ht.processed⟩
  constructor
  · exact fun y r y' hrun ht => (next_traces h fuel id ht hrun).1
  · exact fun record y r y' hrun ht => process_traces h fuel id record ht hrun
  · exact fun items => houtput (StagedOutput.write items)
  · exact fun f => houtput (StagedOutput.writeSkipped f)
  · exact houtput StagedOutput.close

/-- An export that nobody stops pulls all that it wants. -/
private theorem body_traces {source : RecordSource} {output : StagedOutput} {run run' : StepRun}
    {log : FlowLog Json Json} {x : ExportStage ω} (hfit : j.OffsetsFit collection)
    (hsource : source = .offset j.offsetSource)
    (hrun : ((j.step fuel id).logged.body fuel).run (run, {}, ⟨source, output, w⟩) =
      some (.ok .exhausted, run', log, x)) :
    log.delivered = j.wanted collection ∧
      Enrichment.Outcomes byId j.source.enrich j.source.idField w.cache log.processed x.worker.cache := by
  have hstart : j.Traces collection byId w.cache ({}, ⟨source, output, w⟩) :=
    ⟨hsource ▸ readsFrom_start hfit output w, .nil⟩
  have hflow : (j.step fuel id).logged.flow.Keeps fun y y' =>
      j.Traces collection byId w.cache y → j.Traces collection byId w.cache y' := flow_traces h fuel id
  have htraces := ChunkStep.body_keeps _ (fun _ h => h) (fun h h' ht => h' (h ht)) hflow fuel _ _ _ hrun hstart
  have houtput := output_logged (fun y : FlowLog Json Json × ExportStage ω => y.1.delivered = j.wanted collection)
    fun _ _ _ _ hall => hall
  refine ⟨?_, htraces.processed⟩
  exact ChunkStep.body_exhausted _ (fun y : FlowLog Json Json × ExportStage ω => y.1.delivered = j.wanted collection)
    hflow (fun y y' ht hnext => (next_traces h fuel id ht hnext).2 rfl) (fun items => houtput (StagedOutput.write items))
    (houtput StagedOutput.close) hstart hrun

end Traces

/-- What an export has staged that nobody has stopped. -/
structure Staged (j : ExportJob ω) (collection : List Json) (byId : ReferenceKind → String → Except Failure Json)
    (temp : String) (e : Execution) (w : Worker ω) (e' : Execution) (w' : Worker ω) (area : StagingArea temp)
    (log : FlowLog Json Json) (run : StepRun) : Prop where
  begun : area.tree = StagedOutput.withDirectory (WorkPath.records temp) w.files
  recordsAt : area.tree.locate (WorkPath.records temp) = .ok area.records
  staged : IsStaged area log w'.files
  tally : j.Tally ReferenceCache.anything log run
  execution : e' = e.addStep (run.finish .completed w.now)
  delivered : log.delivered = j.wanted collection
  processed : ∃ c, Enrichment.Outcomes byId j.source.enrich j.source.idField w.cache log.processed c

theorem staged_ok (h : j.IsSteady collection byId) (hfit : j.OffsetsFit collection)
    (hrun : (j.staged fuel).run (e, w) = some (.ok temp, e', w')) (hstop : w'.stopRequested e'.id = false) :
    e.parameters.nonBlank? Key.tempOutputPath = some temp ∧
      ∃ area log run, j.Staged collection byId temp e w e' w' area log run := by
  obtain ⟨⟨temp, source, output⟩, ⟨e₁, w₁⟩, hsetUp, hrest⟩ := Effect.bind_ok hrun
  obtain ⟨⟨⟩, ⟨e₂, w₂⟩, hstage, heq⟩ := Effect.bind_ok hrest
  cases heq
  have hsource := setUp_source h.paging hsetUp
  obtain ⟨hparameter, rfl, files, rfl, hcreate⟩ := setUp_ok hsetUp
  obtain ⟨area, hbegun, hstages, hrecords⟩ := StagedOutput.create_ok hcreate
  obtain ⟨log, run, ending, x, hlog, rfl, hending, htally, hstaged⟩ := stage_ok h.sameFiles hstages hstage
  obtain rfl : ending = .exhausted := by
    cases ending with
    | exhausted => rfl
    | stopped => cases hstop.symm.trans (hending rfl)
  obtain ⟨hdelivered, houtcomes⟩ := body_traces h hfit hsource hlog
  exact ⟨hparameter, area, log, run, hbegun, hrecords, hstaged, htally, rfl, hdelivered, _, houtcomes⟩

end ExportJob
end BatchExport
