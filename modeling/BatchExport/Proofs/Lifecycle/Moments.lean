import BatchExport.Proofs.Lifecycle.Ending

/-! The moments of a run. Main statements: of two of them one comes first, all have the same job id, and a request to
stop that comes before the body is seen there. -/
namespace BatchExport

variable {ω : Type}

/-- A part that leaves the execution the id of its job. -/
def JobPart.KeepsJob (p : JobPart ω) : Prop := p.act.Keeps fun (e, _) (e', _) => e'.jobId? = e.jobId?

theorem Execution.conclude_terminal (e : Execution) (result : Except Failure Unit) (stopped : Bool) (now : Instant) :
    (e.conclude result stopped now).status.isTerminal = true := by
  cases result with
  | error f => rfl
  | ok _ => cases stopped <;> rfl

theorem Execution.conclude_jobId? (e : Execution) (result : Except Failure Unit) (stopped : Bool) (now : Instant) :
    (e.conclude result stopped now).jobId? = e.jobId? :=
  congrArg JobParameters.jobId? (e.conclude_parameters result stopped now)

namespace Run

variable {s : Surroundings ω} {start r r' : Run ω} {w₀ w w' : Worker ω}

theorem Leads.parts (h : Leads s start w₀ r w) : r.parts ⊆ start.parts := by
  induction h with
  | refl => exact List.Subset.refl _
  | step before step ih => exact List.Subset.trans (step_parts step) ih

theorem step?_before (listeners : List Listener) (job : List (JobPart ω)) (e : Execution) (hook : Hook)
    (rest : List Hook) : step? s ⟨listeners, job, e, .before (hook :: rest)⟩ w =
      some (⟨listeners, job, e, .before ((hook.act s e w).1 ++ rest)⟩, (hook.act s e w).2) := rfl

theorem step?_after (listeners : List Listener) (job : List (JobPart ω)) (e : Execution) (hook : Hook)
    (rest : List Hook) : step? s ⟨listeners, job, e, .after (hook :: rest)⟩ w =
      some (⟨listeners, job, e, .after ((hook.act s e w).1 ++ rest)⟩, (hook.act s e w).2) := rfl

/-- A step is one of a listener, or one of the job, or it changes of the worker only which executions run. -/
theorem step_kinds (h : r.step? s w = some (r', w')) :
    (∃ hook rest, (r.phase = .before (hook :: rest) ∨ r.phase = .after (hook :: rest)) ∧
      r'.execution = r.execution ∧ w' = (hook.act s r.execution w).2) ∨
    (∃ part rest result, r.phase = .working (part :: rest) ∧
      part.act.run (r.execution, w) = some (result, r'.execution, w')) ∨
    (r'.execution.jobId? = r.execution.jobId? ∧ ∃ running, w' = { w with running }) := by
  obtain ⟨listeners, job, e, phase⟩ := r
  cases phase with
  | before hooks =>
    cases hooks with
    | nil =>
      cases h
      exact .inr (.inr ⟨rfl, _, rfl⟩)
    | cons hook rest =>
      cases h
      exact .inl ⟨hook, rest, .inl rfl, rfl, rfl⟩
  | after hooks =>
    cases hooks with
    | nil =>
      cases h
      exact .inr (.inr ⟨rfl, _, rfl⟩)
    | cons hook rest =>
      cases h
      exact .inl ⟨hook, rest, .inr rfl, rfl, rfl⟩
  | working parts =>
    cases parts with
    | nil =>
      cases h
      exact .inr (.inr ⟨rfl, _, rfl⟩)
    | cons part rest =>
      obtain ⟨e', hact, rfl⟩ | ⟨f, e', hact, rfl⟩ := step_working h
      · exact .inr (.inl ⟨part, rest, _, rfl, hact⟩)
      · exact .inr (.inl ⟨part, rest, _, rfl, hact⟩)
  | concluding result =>
    cases h
    exact .inr (.inr ⟨e.conclude_jobId? result _ _, _, rfl⟩)
  | ended => cases h
  | _ =>
    cases h
    exact .inr (.inr ⟨rfl, _, rfl⟩)

theorem parts_of_starting (h : r.phase = .starting) : r.parts = r.job := by
  rw [parts, h]
  exact List.append_nil _

theorem mem_parts_of_working {part : JobPart ω} {rest : List (JobPart ω)} (h : r.phase = .working (part :: rest)) :
    part ∈ r.parts := by
  rw [parts, h]
  exact List.mem_append_right _ List.mem_cons_self

theorem step_jobId? (hparts : ∀ p ∈ r.parts, p.KeepsJob) (h : r.step? s w = some (r', w')) :
    r'.execution.jobId? = r.execution.jobId? := by
  obtain ⟨hook, rest, -, hsame, -⟩ | ⟨part, rest, result, hphase, hact⟩ | ⟨hsame, -⟩ := step_kinds h
  · rw [hsame]
  · exact hparts part (mem_parts_of_working hphase) _ _ _ hact
  · exact hsame

theorem Leads.jobId? (hparts : ∀ p ∈ start.parts, p.KeepsJob) (h : Leads s start w₀ r w) :
    r.execution.jobId? = start.execution.jobId? := by
  induction h with
  | refl => rfl
  | step before step ih => exact (step_jobId? (fun p hp => hparts p (before.parts hp)) step).trans ih

/-- A run makes no entry with a name that no path can lead to if its parts and others make none. -/
theorem Leads.keepsNames (hfiles : ∀ w, (s.others w).files = w.files)
    (hparts : ∀ p ∈ start.parts, p.act.Keeps fun x y => x.2.files.KeepsNames y.2.files) (h : Leads s start w₀ r w) :
    w₀.files.KeepsNames w.files := by
  induction h with
  | refl => exact .refl w₀.files
  | @step r r' w w' before step ih =>
    rw [hfiles]
    refine ih.trans ?_
    obtain ⟨hook, rest, -, -, rfl⟩ | ⟨part, rest, result, hphase, hact⟩ | ⟨-, running, rfl⟩ := step_kinds step
    · exact hook.act_keepsNames s r.execution w
    · exact hparts part (before.parts (mem_parts_of_working hphase)) _ _ _ hact
    · exact .refl w.files

/-- The steps of a run follow from each other, so of two moments one comes first. -/
theorem Leads.head (h : Leads s start w₀ r w) :
    (r = start ∧ w = w₀) ∨ ∃ q v, start.step? s w₀ = some (q, v) ∧ Leads s q (s.others v) r w := by
  induction h with
  | refl => exact .inl ⟨rfl, rfl⟩
  | step before step ih =>
    obtain ⟨rfl, rfl⟩ | ⟨q, v, hfirst, hrest⟩ := ih
    · exact .inr ⟨_, _, step, .refl⟩
    · exact .inr ⟨q, v, hfirst, hrest.step step⟩

theorem Leads.linear (h : Leads s start w₀ r w) (h' : Leads s start w₀ r' w') :
    Leads s r w r' w' ∨ Leads s r' w' r w := by
  induction h with
  | refl => exact .inl h'
  | step before step ih =>
    obtain hlater | hearlier := ih
    · obtain ⟨rfl, rfl⟩ | ⟨q, v, hfirst, hrest⟩ := hlater.head
      · exact .inr (Leads.refl.step step)
      · rw [step] at hfirst
        cases hfirst
        exact .inl hrest
    · exact .inr (hearlier.step step)

/-- The body has not begun. -/
def IsEarly (r : Run ω) : Prop := r.phase = .starting ∨ (∃ hooks, r.phase = .before hooks) ∨ r.phase = .deciding

/-- No step leads back to before the body, nor withdraws a request to stop there. -/
private theorem step_early (h : r.step? s w = some (r', w')) (hearly : r'.IsEarly) :
    r.IsEarly ∧ r.phase ≠ .deciding ∧ (w.stopRequested r.execution.id → w'.stopRequested r'.execution.id) := by
  obtain ⟨listeners, job, e, phase⟩ := r
  cases phase with
  | starting =>
    cases h
    exact ⟨.inl rfl, by simp, w.running.stopRequested_ensure e.id e.id⟩
  | before hooks =>
    cases hooks with
    | nil =>
      cases h
      exact ⟨.inr (.inl ⟨_, rfl⟩), by simp, id⟩
    | cons hook rest =>
      rw [step?_before] at h
      cases h
      refine ⟨.inr (.inl ⟨_, rfl⟩), by simp, ?_⟩
      intro hasked
      rwa [Worker.stopRequested, Hook.act_running]
  | deciding =>
    simp only [step?] at h
    split at h
    · cases h
      simp [IsEarly] at hearly
    · cases h
      simp [IsEarly] at hearly
  | working parts =>
    cases parts with
    | nil =>
      cases h
      simp [IsEarly] at hearly
    | cons part rest =>
      obtain ⟨e', -, rfl⟩ | ⟨f, e', -, rfl⟩ := step_working h
      · simp [IsEarly] at hearly
      · simp [IsEarly] at hearly
  | concluding result =>
    cases h
    simp [IsEarly] at hearly
  | leaving =>
    cases h
    simp [IsEarly] at hearly
  | after hooks =>
    cases hooks with
    | nil =>
      cases h
      simp [IsEarly] at hearly
    | cons hook rest =>
      cases h
      simp [IsEarly] at hearly
  | ended => cases h

/-- A request to stop that comes before the body is still there when it is looked for. -/
private theorem Leads.asked (hothers : ∀ w id, w.stopRequested id → (s.others w).stopRequested id)
    (h : Leads s start w₀ r w) (hearly : r.IsEarly) (hasked : w₀.stopRequested start.execution.id) :
    start.IsEarly ∧ w.stopRequested r.execution.id := by
  induction h with
  | refl => exact ⟨hearly, hasked⟩
  | step before step ih =>
    obtain ⟨hbefore, -, hkeeps⟩ := step_early step hearly
    obtain ⟨hstart, hasked⟩ := ih hbefore
    exact ⟨hstart, hothers _ _ (hkeeps hasked)⟩

private theorem Leads.early (h : Leads s start w₀ r w) (hearly : r.IsEarly) :
    start.IsEarly ∧ (start.phase = .deciding → r = start ∧ w = w₀) := by
  induction h with
  | refl => exact ⟨hearly, fun _ => ⟨rfl, rfl⟩⟩
  | step before step ih =>
    obtain ⟨hbefore, hphase, -⟩ := step_early step hearly
    obtain ⟨hstart, hsame⟩ := ih hbefore
    refine ⟨hstart, ?_⟩
    intro hdeciding
    obtain ⟨rfl, -⟩ := hsame hdeciding
    exact absurd hdeciding hphase

/-- The run has looked for a request to stop, and there was none. -/
def Undisturbed (s : Surroundings ω) (start : Run ω) (w₀ : Worker ω) : Prop :=
  ∃ r w, Leads s start w₀ r w ∧ r.phase = .deciding ∧ w.stopRequested r.execution.id = false

theorem Undisturbed.not_asked (h : Undisturbed s start w₀)
    (hothers : ∀ w id, w.stopRequested id → (s.others w).stopRequested id) (hleads : Leads s start w₀ r w)
    (hearly : r.IsEarly) : w.stopRequested r.execution.id = false := by
  obtain ⟨q, v, hq, hphase, hgoing⟩ := h
  rw [Bool.eq_false_iff]
  intro hasked
  obtain hlater | hearlier := hleads.linear hq
  · have hstill := (hlater.asked hothers (.inr (.inr hphase)) hasked).2
    rw [hgoing] at hstill
    cases hstill
  · obtain ⟨rfl, rfl⟩ := (hearlier.early hearly).2 hphase
    rw [hgoing] at hasked
    cases hasked

end Run

end BatchExport
