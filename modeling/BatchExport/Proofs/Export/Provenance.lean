import BatchExport.Proofs.Export.Staging

/-! Where the names in the output of an export come from. Main statement: each of them is the name of an entity that the
cache held when the export began, or that the service gave. -/
namespace BatchExport
namespace ExportJob

variable {ω : Type} {j : ExportJob ω} {fuel : Nat} {held : ReferenceKind → String → Json → Prop} {e : Execution}
  {w : Worker ω} {log : FlowLog Json Json} {run : StepRun}

/-- The records so far have come to what they come to with the entities from the start and the service, and the cache
holds no others. -/
private structure Sourced (j : ExportJob ω) (held : ReferenceKind → String → Json → Prop)
    (y : FlowLog Json Json × ExportStage ω) : Prop where
  processed : ∀ p ∈ y.1.processed, ∃ r, p.2 = r.map some ∧ j.Becomes held p.1 r
  cache : j.lookup.Supplies held y.2.worker.cache

private theorem process_sourced (fuel : Nat) (id : ExecutionId) (record : Json) :
    ((j.flow fuel id).logged.process record).Keeps fun y y' => j.Sourced held y → j.Sourced held y' := by
  rintro ⟨log, x⟩ outcome y hrun h
  obtain ⟨⟨outcome, x'⟩, hprocess, heq⟩ := Option.map_eq_some_iff.mp hrun
  cases heq
  obtain ⟨hbecomes, hcache⟩ := process_becomes fuel id record h.cache outcome x' hprocess
  refine ⟨fun p hp => ?_, hcache⟩
  rcases List.mem_append.mp hp with hp | hp
  · exact h.processed p hp
  · cases List.mem_singleton.mp hp
    exact hbecomes

section Fetches

variable (hfetch : ∀ request, (j.fetch request).Keeps fun w w' => j.lookup.Supplies w.cache.Holds w'.cache)
include hfetch

private theorem next_sourced (fuel : Nat) (id : ExecutionId) :
    (j.flow fuel id).logged.next.Keeps fun y y' => j.Sourced held y → j.Sourced held y' := by
  have hsource := RecordSource.next_keeps (fun w => j.lookup.supplies_start w.cache) (fun h h' => h.trans h') hfetch fuel
  have hnext : (ExportStage.onSource (RecordSource.next fuel j.fetch)).Keeps
      fun x x' => j.lookup.Supplies x.worker.cache.Holds x'.worker.cache :=
    .onPart hsource fun _ _ h => h
  rintro ⟨log, x⟩ answer y hrun h
  obtain ⟨⟨answer, x'⟩, hpulled, heq⟩ := Option.map_eq_some_iff.mp hrun
  cases heq
  refine ⟨?_, h.cache.trans (hnext x answer x' hpulled)⟩
  rw [FlowLog.processed_deliver]
  exact h.processed

private theorem flow_sourced (fuel : Nat) (id : ExecutionId) :
    (j.flow fuel id).logged.Keeps fun y y' => j.Sourced held y → j.Sourced held y' := by
  have houtput := output_logged (j.Sourced held) fun _ _ _ _ h => ⟨h.processed, h.cache⟩
  constructor
  · exact next_sourced hfetch fuel id
  · exact process_sourced fuel id
  · exact fun items => houtput (StagedOutput.write items)
  · exact fun f => houtput (StagedOutput.writeSkipped f)
  · exact houtput StagedOutput.close

/-- Each record in the log has come to what it comes to with the cache at the start and the service. -/
theorem log?_becomes (hlog : j.log? fuel (e, w) = some log) (p : Json × Except Failure (Option Json))
    (hp : p ∈ log.processed) : ∃ r, p.2 = r.map some ∧ j.Becomes w.cache.Holds p.1 r := by
  rw [log?] at hlog
  split at hlog
  · rename_i temp source output e₁ w₁ hsetUp
    obtain ⟨-, -, files, rfl, -⟩ := setUp_ok hsetUp
    obtain ⟨⟨ending, run, log, x⟩, hbody, rfl⟩ := Option.map_eq_some_iff.mp hlog
    have hstart : j.Sourced w.cache.Holds ({}, ⟨source, output, { w with files }⟩) :=
      ⟨(fun _ hp => nomatch hp), j.lookup.supplies_start w.cache⟩
    have hsourced := ChunkStep.body_keeps _ (fun _ h => h) (fun h h' hy => h' (h hy)) (flow_sourced hfetch fuel e₁.id)
      fuel _ _ _ hbody hstart
    exact hsourced.processed p hp
  · cases hlog

/-- What is in the output is tied to the cache at the start. -/
theorem Tally.ofStart (h : j.Tally ReferenceCache.anything log run) (hlog : j.log? fuel (e, w) = some log) :
    j.Tally w.cache.Holds log run where
  inOrder := h.inOrder
  complete := h.complete
  read := h.read
  written := h.written
  skipped := h.skipped
  filtered := h.filtered
  accounted p hp := by
    obtain ⟨r, heq, hbecomes⟩ := log?_becomes hfetch hlog p hp
    have hanyhow := h.accounted p hp
    rw [heq] at hanyhow ⊢
    refine .of_becomes hbecomes fun f hf => ?_
    rw [hf] at hanyhow
    cases hanyhow with
    | row name reason refused named => rfl

end Fetches

end ExportJob

/-- The pages of an export that was planned bring nothing into the cache. -/
theorem ExportPlan.exportJob_supplies {ω : Type} (p : ExportPlan) (host : Host ω) (id : ExecutionId)
    (request : PageRequest) : ((p.exportJob host id).fetch request).Keeps fun w w' =>
      (p.exportJob host id).lookup.Supplies w.cache.Holds w'.cache := by
  intro w
  refine ((exportJob_servicesKeep host id p).fetch request w).mono fun _ w' ⟨_, hcache, _⟩ => ?_
  dsimp only
  rw [hcache]
  exact ReferenceLookup.supplies_start _ w.cache

end BatchExport
