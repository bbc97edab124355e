import BatchExport.Proofs.Export.Completing
import BatchExport.Proofs.Export.Leftovers

/-! Exports that differ in the sizes of their pages and chunks. Main statement: over a collection that does not change,
two such exports stage the same files and count the same, and both complete unless files or storage fail. -/
namespace BatchExport

/-- The counts of a step, without its name and its times. -/
def StepRun.counts (run : StepRun) : List Nat := [run.read, run.written, run.filtered, run.skipped]

namespace StagingArea

variable {temp : String} {area area' : StagingArea temp} {t t' : FileTree}

theorem eq_of_tree (h : area.tree = area'.tree) : area = area' := by
  obtain ⟨tree, dir, hwalk, hdir⟩ := area
  obtain ⟨tree', dir', hwalk', hdir'⟩ := area'
  obtain rfl : tree = tree' := h
  cases hwalk.symm.trans hwalk'
  rfl

/-- What is read at the path of the errors file is what is staged there; a path that led nowhere at the start leads
nowhere later. -/
theorem read_errors (h : area.tree.Grows t) (h' : area.tree.Grows t')
    (hsame : t.textAt? area.errors = t'.textAt? area.errors) :
    (t.read (WorkPath.errors temp)).toOption = (t'.read (WorkPath.errors temp)).toOption := by
  have hnowhere {t : FileTree} (h : area.tree.Grows t)
      (hlost : area.tree.locate (WorkPath.errors temp) ≠ .ok area.errors) :
      (t.read (WorkPath.errors temp)).toOption = none := by
    cases hread : t.read (WorkPath.errors temp) with
    | error fault => rfl
    | ok text =>
      obtain ⟨location, hl, -⟩ := FileTree.read_ok_iff.mp hread
      obtain rfl := area.leads_to_errors h hl
      exact absurd (h.locate_before (WorkPath.endsIn_errors temp) (area.walk_of_grows (.refl _) (by decide))
        area.isDirectory hl) hlost
  by_cases hlocate : area.tree.locate (WorkPath.errors temp) = .ok area.errors
  · rw [FileTree.toOption_read (h.locate hlocate), FileTree.toOption_read (h'.locate hlocate), hsame]
  · rw [hnowhere h hlocate, hnowhere h' hlocate]

end StagingArea

namespace ExportJob

variable {ω : Type} {j : ExportJob ω} {pageSize chunkSize pageSize' chunkSize' fuel fuel' : Nat} {temp : String}
  {e e₁ e₂ : Execution} {w w₁ w₂ : Worker ω} {collection : List Json}
  {byId : ReferenceKind → String → Except Failure Json}

/-- The same export with other pages and chunks. -/
def sized (j : ExportJob ω) (pageSize chunkSize : Nat) : ExportJob ω :=
  { j with source := { j.source with pageSize, chunkSize } }

theorem IsSteady.sized (h : j.IsSteady collection byId) (pageSize chunkSize : Nat) :
    (j.sized pageSize chunkSize).IsSteady collection byId :=
  ⟨h.paging, h.serves, h.answers, ⟨h.spares.fetch, h.spares.byId⟩⟩

/-- Two exports have staged the same, and counted the same. -/
structure StagedAlike (temp : String) (x y : Execution × Worker ω) : Prop where
  records : ∃ text, x.2.files.read (WorkPath.records temp) = .ok text ∧ y.2.files.read (WorkPath.records temp) = .ok text
  errors : (x.2.files.read (WorkPath.errors temp)).toOption = (y.2.files.read (WorkPath.errors temp)).toOption
  counts : x.1.steps.map StepRun.counts = y.1.steps.map StepRun.counts

private theorem staged_alike (h : j.IsSteady collection byId) {temp' : String}
    (hfit : (j.sized pageSize chunkSize).OffsetsFit collection)
    (hfit' : (j.sized pageSize' chunkSize').OffsetsFit collection)
    (hrun : ((j.sized pageSize chunkSize).staged fuel).run (e, w) = some (.ok temp, e₁, w₁))
    (hstop : w₁.stopRequested e₁.id = false)
    (hrun' : ((j.sized pageSize' chunkSize').staged fuel').run (e, w) = some (.ok temp', e₂, w₂))
    (hstop' : w₂.stopRequested e₂.id = false) :
    temp' = temp ∧ StagedAlike temp (e₁, w₁) (e₂, w₂) := by
  obtain ⟨hparameter, area, log, run, hstaged⟩ := staged_ok (h.sized _ _) hfit hrun hstop
  obtain ⟨hparameter', area', log', run', hstaged'⟩ := staged_ok (h.sized _ _) hfit' hrun' hstop'
  obtain rfl : temp = temp' := Option.some.inj (hparameter.symm.trans hparameter')
  obtain rfl : area = area' := StagingArea.eq_of_tree (hstaged.begun.trans hstaged'.begun.symm)
  obtain ⟨c, houtcomes⟩ := hstaged.processed
  obtain ⟨c', houtcomes'⟩ := hstaged'.processed
  -- Both have pulled all that is wanted, so the same has become of it.
  have hdelivered : log.delivered = log'.delivered := hstaged.delivered.trans hstaged'.delivered.symm
  have hprocessed : log.processed = log'.processed := by
    refine (houtcomes.unique houtcomes' ?_).1
    rw [hstaged.tally.inOrder, hstaged'.tally.inOrder, hdelivered]
  have houtputs : log.outputs = log'.outputs := by rw [FlowLog.outputs, hprocessed, FlowLog.outputs]
  have hfailures : log.failures = log'.failures := by rw [FlowLog.failures, hprocessed, FlowLog.failures]
  refine ⟨rfl, ⟨log.outputs.flatMap StagedOutput.line, ?_, ?_⟩, ?_, ?_⟩
  · exact (FileTree.read_iff (hstaged.staged.grown.locate hstaged.recordsAt)).mpr hstaged.staged.records
  · rw [houtputs]
    exact (FileTree.read_iff (hstaged'.staged.grown.locate hstaged.recordsAt)).mpr hstaged'.staged.records
  · refine StagingArea.read_errors hstaged.staged.grown hstaged'.staged.grown ?_
    rw [hstaged.staged.errors, hstaged'.staged.errors, hfailures]
  · have hcounts : run.counts = run'.counts := by
      rw [StepRun.counts, StepRun.counts, hstaged.tally.read, hstaged.tally.written, hstaged.tally.filtered,
        hstaged.tally.skipped, hstaged'.tally.read, hstaged'.tally.written, hstaged'.tally.filtered,
        hstaged'.tally.skipped, hdelivered, houtputs, hfailures]
    have hfinish (run : StepRun) : (run.finish .completed w.now).counts = run.counts := rfl
    simp only [hstaged.execution, hstaged'.execution, Execution.addStep, List.map_append, List.map_cons, List.map_nil,
      hfinish, hcounts]

/-- An export that begins in this state completes, and leaves that one. -/
def Completes (j : ExportJob ω) (fuel : Nat) (x y : Execution × Worker ω) : Prop :=
  ∃ result now, (j.execute fuel).run x = some (result, y) ∧
    (y.1.conclude result (y.2.stopRequested y.1.id) now).status = .completed

/-- An export that completes has staged its files before, and counts no more steps afterwards. -/
private theorem Completes.staged {x y : Execution × Worker ω} (h : j.Completes fuel x y) :
    ∃ temp z, (j.staged fuel).run x = some (.ok temp, z) ∧ z.2.stopRequested z.1.id = false ∧ y.1.steps = z.1.steps := by
  obtain ⟨result, now, hrun, hcompleted⟩ := h
  obtain ⟨rfl, hstop⟩ := Execution.conclude_completed hcompleted
  rw [execute_staged] at hrun
  obtain ⟨temp, z, hstaged, hfinish⟩ := Effect.bind_ok hrun
  obtain ⟨hgoing, refs, e, hput, hstored⟩ := finish_stores hfinish hstop
  rw [← storeAmid_id] at hstored
  obtain ⟨rfl, -⟩ := storeAmid_ok_iff.mp hstored
  exact ⟨temp, z, hstaged, hgoing, (congrArg Execution.steps hput).trans rfl⟩

/-- Over an unchanging collection, the sizes of pages and chunks change nothing that a completed export has staged and
counted, as long as no page takes the offset past its greatest value. If nobody asks for a stop and the service fails
only where it finds nothing, an export with room for its chunks completes whatever the sizes are, unless its files or its
storage fail. -/
theorem sizes_change_nothing (h : j.IsSteady collection byId) (pageSize chunkSize pageSize' chunkSize' : Nat)
    (hfit : (j.sized pageSize chunkSize).OffsetsFit collection) :
    ((j.sized pageSize' chunkSize').OffsetsFit collection → ∀ fuel fuel' x y y',
      (j.sized pageSize chunkSize).Completes fuel x y →
      (j.sized pageSize' chunkSize').Completes fuel' x y' →
      ∃ temp z z', ((j.sized pageSize chunkSize).staged fuel).run x = some (.ok temp, z) ∧
        ((j.sized pageSize' chunkSize').staged fuel').run x = some (.ok temp, z') ∧ StagedAlike temp z z' ∧
        y.1.steps = z.1.steps ∧ y'.1.steps = z'.1.steps) ∧
    (max chunkSize 1 ≤ j.room → ∀ fuel temp e w, (∀ kind id f, byId kind id = .error f → f.isNotFound = true) →
      j.ServicesKeep (Worker.StaysUnasked e.id) → (∀ path, (j.store path).Ends (Worker.StaysUnasked e.id)) →
      e.parameters.nonBlank? Key.tempOutputPath = some temp → w.stopRequested e.id = false →
      (collection.drop j.source.startOffset.toNat).length < fuel →
      (∃ y, (j.sized pageSize chunkSize).Completes fuel (e, w) y) ∨
        ∃ f y, ((j.sized pageSize chunkSize).execute fuel).run (e, w) = some (.error f, y) ∧
          (j.sized pageSize chunkSize).IsOutputFailure fuel temp e w f) := by
  constructor
  · intro hfit' fuel fuel' x y y' hcompletes hcompletes'
    obtain ⟨temp, z, hstaged, hstop, hsteps⟩ := hcompletes.staged
    obtain ⟨temp', z', hstaged', hstop', hsteps'⟩ := hcompletes'.staged
    obtain ⟨rfl, halike⟩ := staged_alike h hfit hfit' hstaged hstop hstaged' hstop'
    exact ⟨_, z, z', hstaged, hstaged', halike, hsteps, hsteps'⟩
  · intro hroom fuel temp e w hfound hunasked hstore htemp hgoing hfuel
    have hunasked' : (j.sized pageSize chunkSize).ServicesKeep (Worker.StaysUnasked e.id) :=
      ⟨hunasked.fetch, hunasked.byId⟩
    obtain ⟨result, y, hrun, hstop, hfailed⟩ :=
      execute_returns (h.sized pageSize chunkSize) hfound hunasked' hstore htemp hgoing hfit hroom hfuel
    cases result with
    | error f => exact .inr ⟨f, y, hrun, hfailed f rfl⟩
    | ok =>
      refine .inl ⟨y, .ok (), w.now, hrun, ?_⟩
      rw [hstop]
      rfl

end ExportJob

namespace SampleSizes

/-- The service does not know what the second record refers to. -/
def collection : List Json := [
  .object [("id", .string "r1")],
  .object [("id", .string "r2"), ("servicePointId", .string "nowhere")],
  .object [("id", .string "r3")]]

def byId (kind : ReferenceKind) (id : String) : Except Failure Json := .error (.notFound kind.label id)

def job (startOffset : UInt64) : ExportJob Unit where
  sourceName := "orders"
  source := { path := "/orders", startOffset, enrich := [⟨"servicePointId", .servicePoint, "servicePoint"⟩] }
  fetch r := pure ⟨match r.position with
    | .offset n => collection.drop n
    | _ => [], none⟩
  lookup := {
    byId := fun kind id => .ofStep fun w => (byId kind id, w)
    byQuery := fun _ _ => pure [] }
  store path := Worker.onFiles (Storage.store "out" path)

def execution (params : JobParameters) : Execution := .new 1 "orders-export" params ⟨0, 0⟩

def staging : JobParameters := [(Key.jobId, "J1"), (Key.tempOutputPath, "work/J1-orders")]

def worker : Worker Unit := { cache := .new 0 [] none, files := .empty [], now := ⟨0, 0⟩, outside := () }

private theorem isSteady (startOffset : UInt64) : (job startOffset).IsSteady collection byId where
  paging := rfl
  serves request offset w := by
    refine ⟨⟨collection.drop offset.toNat, none⟩, w, rfl, List.prefix_rfl, ?_⟩
    rw [List.length_drop]
    exact Nat.min_le_right _ _
  answers kind id w := ⟨w, rfl⟩
  spares := ⟨fun r => .pure (fun w => ⟨rfl, rfl⟩) _, fun kind key w r w' h => by cases h; exact ⟨rfl, rfl⟩⟩

private theorem servicesKeep : (job 0).ServicesKeep (Worker.StaysUnasked 1) :=
  ⟨fun r => .pure (fun _ h => h) _, fun kind key w r w' h => by cases h; exact fun h => h⟩

/-- What becomes of the export, and its counts. -/
def outcome (startOffset : UInt64) (pageSize chunkSize : Nat) : Option (BatchStatus × List (List Nat)) :=
  ((((job startOffset).sized pageSize chunkSize).execute 9).run (execution staging, worker)).map fun (result, e, w) =>
    ((e.conclude result (w.stopRequested e.id) ⟨0, 0⟩).status, e.steps.map StepRun.counts)

private theorem completes_of_outcome {startOffset : UInt64} {pageSize chunkSize : Nat} {counts : List (List Nat)}
    (h : outcome startOffset pageSize chunkSize = some (.completed, counts)) :
    ∃ y, ((job startOffset).sized pageSize chunkSize).Completes 9 (execution staging, worker) y ∧
      y.1.steps.map StepRun.counts = counts := by
  obtain ⟨⟨result, e, w⟩, hrun, heq⟩ := Option.map_eq_some_iff.mp h
  obtain ⟨hcompleted, hcounts⟩ := Prod.mk.inj heq
  exact ⟨(e, w), ⟨result, ⟨0, 0⟩, hrun, hcompleted⟩, hcounts⟩

private theorem fit : ((job 0).sized 1 1).OffsetsFit collection ∧ ((job 0).sized 2 3).OffsetsFit collection := by
  decide

private theorem outcomes : outcome 0 1 1 = some (.completed, [[3, 2, 0, 1]]) ∧
    outcome 0 2 3 = some (.completed, [[3, 2, 0, 1]]) := by
  decide +kernel

/-- Records pulled one by one, and two by two and written three at a time: the same files and the same counts. That the
second export completes follows from its service. -/
theorem sizes_change_nothing_of_three : ∃ y y', ((job 0).sized 1 1).Completes 9 (execution staging, worker) y ∧
    ((job 0).sized 2 3).Completes 9 (execution staging, worker) y' ∧ y.1.steps.map StepRun.counts = [[3, 2, 0, 1]] ∧
    ∃ temp z z', (((job 0).sized 1 1).staged 9).run (execution staging, worker) = some (.ok temp, z) ∧
      (((job 0).sized 2 3).staged 9).run (execution staging, worker) = some (.ok temp, z') ∧
      ExportJob.StagedAlike temp z z' := by
  have hfound (kind : ReferenceKind) (id : String) (f : Failure) (h : byId kind id = .error f) : f.isNotFound = true := by
    cases h
    rfl
  obtain ⟨y, hy, hcounts⟩ := completes_of_outcome outcomes.1
  have hcompletes : ∃ y', ((job 0).sized 2 3).Completes 9 (execution staging, worker) y' := by
    obtain hcompletes | ⟨f, y', hrun, -⟩ :=
      (ExportJob.sizes_change_nothing (isSteady 0) 2 3 1 1 fit.2).2 (by decide) 9 "work/J1-orders" (execution staging)
        worker hfound servicesKeep (ExportJob.store_ends_of_copies rfl) (by decide) rfl (by decide)
    · exact hcompletes
    · have houtcome := outcomes.2
      rw [outcome, hrun] at houtcome
      cases houtcome
  obtain ⟨y', hy'⟩ := hcompletes
  obtain ⟨temp, z, z', hstaged, hstaged', halike, -, -⟩ :=
    (ExportJob.sizes_change_nothing (isSteady 0) 1 1 2 3 fit.1).1 fit.2 9 9 (execution staging, worker) y y' hy hy'
  exact ⟨y, y', hy, hy', hcounts, temp, z, z', hstaged, hstaged', halike⟩

private theorem outcomes_from_one : outcome 1 2 3 = some (.completed, [[2, 1, 0, 1]]) ∧
    outcome 1 (2 ^ 64 - 1) 3 = some (.completed, [[5, 3, 0, 2]]) := by
  decide +kernel

/-- With a page size that takes the offset past its greatest value, the same export stages records twice. With a chunk
size that there is no room for it never ends, and without the parameter for its staged files it fails. -/
theorem sizes_change_counts_and_ends : (job 1).IsSteady collection byId ∧
    (∃ y, ((job 1).sized 2 3).Completes 9 (execution staging, worker) y ∧
      y.1.steps.map StepRun.counts = [[2, 1, 0, 1]]) ∧
    (∃ y, ((job 1).sized (2 ^ 64 - 1) 3).Completes 9 (execution staging, worker) y ∧
      y.1.steps.map StepRun.counts = [[5, 3, 0, 2]]) ∧
    (∀ fuel, (((job 1).sized 2 (2 ^ 63 - 1)).execute fuel).run (execution staging, worker) = none) ∧
    ∀ fuel, (((job 1).sized 2 3).execute fuel).run (execution [], worker) =
      some (.error ExportJob.missingPath, execution [], worker) :=
  ⟨isSteady 1, completes_of_outcome outcomes_from_one.1, completes_of_outcome outcomes_from_one.2, fun _ => rfl,
    fun _ => rfl⟩

end SampleSizes
end BatchExport
