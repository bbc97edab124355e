import BatchExport.Proofs.Files.Naming
import BatchExport.Proofs.Lifecycle.Steps

/-! How runs with one part end. Main statements: the end marks what has become of the part, which a stop may have left
out; however a run has ended, it has cleaned up what was there when its execution left the running set; and when a run
has completed, the part has run without a failure and without a request to stop, and since then no files have gone but
those that a cleanup deletes. -/
namespace BatchExport

variable {ω : Type}

/-- Others leave the files alone and withdraw no request to stop. -/
structure Surroundings.SpareFiles (s : Surroundings ω) : Prop where
  files : ∀ w, (s.others w).files = w.files
  stops : ∀ w id, w.stopRequested id → (s.others w).stopRequested id

/-- The files of an execution are cleaned up: at the path of its staged files, if it has a job id. -/
def Execution.CleanedUp (e : Execution) (t t' : FileTree) : Prop :=
  ∀ job temp, e.jobId? = some job → e.parameters.nonBlank? Key.tempOutputPath = some temp →
    FileTree.Deletes (Cleanup.Reaches temp t) t t'

namespace Hook

variable {s : Surroundings ω} {e : Execution} {w : Worker ω} {hook : Hook}

/-- Only a binding that is forgotten makes a step necessary. -/
theorem act_more (s : Surroundings ω) (e : Execution) (w : Worker ω) (hook : Hook) :
    (hook.act s e w).1 = [] ∨ hook = .forgetBinding ∧ (hook.act s e w).1 = [.forgetSnapshot] := by
  cases hook with
  | observe moment name => exact .inl rfl
  | forgetBinding =>
    rw [act]
    split
    · dsimp only
      split
      · exact .inr ⟨rfl, rfl⟩
      · exact .inl rfl
    · exact .inl rfl
  | _ =>
    unfold act
    cases e.jobId? <;> exact .inl rfl

theorem act_files (h : hook ≠ .cleanUp) : (hook.act s e w).2.files = w.files := by
  cases hook with
  | cleanUp => exact absurd rfl h
  | observe moment name => rfl
  | publish described => unfold act; cases e.jobId? <;> rfl
  | acknowledge =>
    rw [act]
    cases e.jobId? with
    | none => rfl
    | some job =>
      obtain ⟨parked, outside, heq⟩ := acknowledgeJob_eq s w job
      dsimp only
      rw [heq]
  | forgetBinding => unfold act; cases e.status <;> cases e.jobId? <;> rfl
  | forgetSnapshot => unfold act; cases e.jobId? <;> rfl

theorem act_parked (h : hook ≠ .acknowledge) : (hook.act s e w).2.parked = w.parked := by
  cases hook with
  | acknowledge => exact absurd rfl h
  | observe moment name => rfl
  | publish described => unfold act; cases e.jobId? <;> rfl
  | cleanUp =>
    unfold act
    cases e.jobId? with
    | none => rfl
    | some job =>
      simp only [cleanUpFiles]
      cases e.parameters.nonBlank? Key.tempOutputPath <;> rfl
  | forgetBinding => unfold act; cases e.status <;> cases e.jobId? <;> rfl
  | forgetSnapshot => unfold act; cases e.jobId? <;> rfl

theorem acknowledge_parked {job : JobId} (hjob : e.jobId? = some job) :
    (acknowledge.act s e w).2.parked = w.parked.erase job := by
  simp only [act, hjob, acknowledgeJob, Worker.unpark]
  cases w.parked.get? job <;> rfl

private theorem act_cleanUp {job : JobId} {temp : String} (hjob : e.jobId? = some job)
    (htemp : e.parameters.nonBlank? Key.tempOutputPath = some temp) :
    (cleanUp.act s e w).2.files = (Cleanup.run temp).aftermath w.files := by
  simp only [act, hjob, cleanUpFiles, htemp]

theorem cleanedUp_cleanUp (s : Surroundings ω) (e : Execution) (w : Worker ω) :
    e.CleanedUp w.files (cleanUp.act s e w).2.files := by
  intro job temp hjob htemp
  rw [act_cleanUp hjob htemp]
  exact Cleanup.run_deletes temp w.files

theorem act_keepsNames (s : Surroundings ω) (e : Execution) (w : Worker ω) (hook : Hook) :
    w.files.KeepsNames (hook.act s e w).2.files := by
  by_cases hhook : hook = .cleanUp
  · subst hhook
    unfold act
    cases e.jobId? with
    | none => exact .refl w.files
    | some job =>
      simp only [cleanUpFiles]
      cases e.parameters.nonBlank? Key.tempOutputPath with
      | none => exact .refl w.files
      | some temp => exact (Cleanup.run_keepsNames temp).aftermath .refl w.files
  · rw [act_files hhook]
    exact .refl w.files

/-- What is cleaned up stays so. -/
theorem cleanedUp_act {t : FileTree} (h : e.CleanedUp t w.files) : e.CleanedUp t (hook.act s e w).2.files := by
  by_cases hhook : hook = .cleanUp
  · subst hhook
    intro job temp hjob htemp
    rw [act_cleanUp hjob htemp]
    exact Cleanup.run_again (h job temp hjob htemp)
  · rw [act_files hhook]
    exact h

end Hook

namespace Run

variable {s : Surroundings ω} {start r r' : Run ω} {w₀ w w' : Worker ω} {part : JobPart ω} {e : Execution}

/-- The steps of a run; others act after each. -/
inductive Leads (s : Surroundings ω) (start : Run ω) (w₀ : Worker ω) : Run ω → Worker ω → Prop
  | refl : Leads s start w₀ start w₀
  | step {r r' : Run ω} {w w' : Worker ω} (before : Leads s start w₀ r w) (step : r.step? s w = some (r', w')) :
      Leads s start w₀ r' (s.others w')

theorem Leads.goOn (h : Leads s start w₀ r w) (isTimeToLeave : Worker ω → Bool) (fuel : Nat) :
    Leads s start w₀ (r.goOn s isTimeToLeave fuel w).1 (r.goOn s isTimeToLeave fuel w).2 := by
  induction fuel generalizing r w with
  | zero => exact h
  | succ fuel ih =>
    rw [Run.goOn]
    split
    · exact h
    · split
      · exact h
      · exact ih (h.step ‹_›)

theorem leads_of_goOn {isTimeToLeave : Worker ω → Bool} {fuel : Nat}
    (h : start.goOn s isTimeToLeave fuel w₀ = (r, w)) : Leads s start w₀ r w := by
  have hall : Leads s start w₀ (start.goOn s isTimeToLeave fuel w₀).1 (start.goOn s isTimeToLeave fuel w₀).2 :=
    Leads.refl.goOn isTimeToLeave fuel
  rwa [h] at hall

theorem phase_of_isEnded (h : r.isEnded) : r.phase = .ended := by
  rw [isEnded] at h
  split at h
  · assumption
  · cases h

/-- No step changes the listeners or the job. -/
private theorem step_constants (h : r.step? s w = some (r', w')) : r'.listeners = r.listeners ∧ r'.job = r.job := by
  obtain ⟨listeners, job, e, phase⟩ := r
  cases phase with
  | ended => cases h
  | working parts =>
    cases parts with
    | nil =>
      cases h
      exact ⟨rfl, rfl⟩
    | cons part rest => obtain ⟨e', -, rfl⟩ | ⟨f, e', -, rfl⟩ := step_working h <;> exact ⟨rfl, rfl⟩
  | before hooks =>
    cases hooks with
    | nil =>
      cases h
      exact ⟨rfl, rfl⟩
    | cons hook rest =>
      cases h
      exact ⟨rfl, rfl⟩
  | after hooks =>
    cases hooks with
    | nil =>
      cases h
      exact ⟨rfl, rfl⟩
    | cons hook rest =>
      cases h
      exact ⟨rfl, rfl⟩
  | _ =>
    cases h
    exact ⟨rfl, rfl⟩

theorem Leads.constants (h : Leads s start w₀ r w) : r.listeners = start.listeners ∧ r.job = start.job := by
  induction h with
  | refl => exact ⟨rfl, rfl⟩
  | step before step ih =>
    obtain ⟨hlisteners, hjob⟩ := step_constants step
    exact ⟨hlisteners.trans ih.1, hjob.trans ih.2⟩

/-- The only part of the job runs without a failure. -/
structure Works (s : Surroundings ω) (start : Run ω) (w₀ : Worker ω) (part : JobPart ω) (e₁ : Execution) (w₁ : Worker ω)
    (e₂ : Execution) (w₂ : Worker ω) : Prop where
  reached : Leads s start w₀ { start with execution := e₁, phase := .working [part] } w₁
  started : ∃ now, e₁ = start.execution.markStarted now
  act : part.act.run (e₁, w₁) = some (.ok (), e₂, w₂)

/-- The part has run, and what it left behind is there. -/
def HasWorked (s : Surroundings ω) (start : Run ω) (w₀ : Worker ω) (part : JobPart ω) (e : Execution) (w : Worker ω) :
    Prop :=
  ∃ e₁ w₁ w₂, Works s start w₀ part e₁ w₁ e w₂ ∧ w.files = w₂.files ∧ (w₂.stopRequested e.id → w.stopRequested e.id)

/-- An execution has completed after its part has run and has left this behind. -/
def HasCompleted (s : Surroundings ω) (start : Run ω) (w₀ : Worker ω) (part : JobPart ω) (e : Execution)
    (w₂ : Worker ω) : Prop :=
  ∃ e₁ w₁ e₂ now, Works s start w₀ part e₁ w₁ e₂ w₂ ∧ w₂.stopRequested e₂.id = false ∧
    e = e₂.conclude (.ok ()) false now

/-- How far a run with one part has come, as far as it may still complete. -/
def Progress (s : Surroundings ω) (start : Run ω) (w₀ : Worker ω) (part : JobPart ω) (e : Execution) (w : Worker ω) :
    RunPhase ω → Prop
  | .starting => e = start.execution
  | .before _ | .deciding => ∃ now, e = start.execution.markStarted now
  | .working parts =>
    (parts = [part] ∧ ∃ now, e = start.execution.markStarted now) ∨ (parts = [] ∧ HasWorked s start w₀ part e w)
  | .concluding result => result = .ok () → w.stopRequested e.id ∨ HasWorked s start w₀ part e w
  | .leaving => e.status = .completed → ∃ w₂, HasCompleted s start w₀ part e w₂ ∧ w.files = w₂.files
  | _ => True

private theorem HasWorked.others (h : HasWorked s start w₀ part e w) (hs : s.SpareFiles) :
    HasWorked s start w₀ part e (s.others w) := by
  obtain ⟨e₁, w₁, w₂, hworks, hfiles, hstop⟩ := h
  exact ⟨e₁, w₁, w₂, hworks, (hs.files w).trans hfiles, fun hasked => hs.stops w _ (hstop hasked)⟩

private theorem Progress.others {phase : RunPhase ω} (h : Progress s start w₀ part e w phase) (hs : s.SpareFiles) :
    Progress s start w₀ part e (s.others w) phase := by
  cases phase with
  | starting => exact h
  | before hooks => exact h
  | deciding => exact h
  | working parts =>
    obtain hstarted | ⟨hparts, hworked⟩ := h
    · exact .inl hstarted
    · exact .inr ⟨hparts, hworked.others hs⟩
  | concluding result => exact fun hresult => (h hresult).imp (hs.stops w _) fun hworked => hworked.others hs
  | leaving =>
    rw [Progress]
    rw [hs.files]
    exact h
  | after hooks => trivial
  | ended => trivial

private theorem Progress.concluded {result : Except Failure Unit} {now : Instant}
    (h : Progress s start w₀ part e w (.concluding result))
    (hcompleted : (e.conclude result (w.stopRequested e.id) now).status = .completed) :
    ∃ w₂, HasCompleted s start w₀ part (e.conclude result (w.stopRequested e.id) now) w₂ ∧ w.files = w₂.files := by
  obtain ⟨rfl, hstop⟩ := Execution.conclude_completed hcompleted
  obtain hasked | ⟨e₁, w₁, w₂, hworks, hfiles, hkept⟩ := h rfl
  · cases hstop.symm.trans hasked
  · have hgoing : w₂.stopRequested e.id = false := by
      rw [Bool.eq_false_iff]
      exact fun hasked => absurd (hkept hasked) (by simp [hstop])
    rw [hstop]
    exact ⟨w₂, ⟨e₁, w₁, e, now, hworks, hgoing, rfl⟩, hfiles⟩

private theorem Progress.step (hjob : start.job = [part]) (hleads : Leads s start w₀ r w)
    (h : Progress s start w₀ part r.execution w r.phase) (hstep : r.step? s w = some (r', w')) :
    Progress s start w₀ part r'.execution w' r'.phase := by
  obtain ⟨hlisteners, hjob'⟩ := hleads.constants
  obtain ⟨listeners, job, e, phase⟩ := r
  dsimp only at hlisteners hjob'
  subst hlisteners hjob'
  cases phase with
  | ended => cases hstep
  | starting =>
    cases hstep
    cases h
    exact ⟨_, rfl⟩
  | before hooks =>
    cases hooks with
    | nil =>
      cases hstep
      exact h
    | cons hook rest =>
      cases hstep
      exact h
  | deciding =>
    cases hstep
    dsimp only
    split
    · exact fun _ => .inl ‹_›
    · exact .inl ⟨hjob, h⟩
  | working parts =>
    obtain ⟨rfl, hstarted⟩ | ⟨rfl, hworked⟩ := h
    · obtain ⟨e₂, hact, rfl⟩ | ⟨f, e₂, hact, rfl⟩ := step_working hstep
      · exact .inr ⟨rfl, e, w, w', ⟨hleads, hstarted, hact⟩, rfl, id⟩
      · exact fun hresult => by cases hresult
    · cases hstep
      exact fun _ => .inr hworked
  | concluding result =>
    cases hstep
    exact h.concluded
  | leaving =>
    cases hstep
    trivial
  | after hooks =>
    cases hooks with
    | nil =>
      cases hstep
      trivial
    | cons hook rest =>
      cases hstep
      trivial

theorem Leads.progress (hs : s.SpareFiles) (hstarting : start.phase = .starting) (hjob : start.job = [part])
    (h : Leads s start w₀ r w) : Progress s start w₀ part r.execution w r.phase := by
  induction h with
  | refl =>
    rw [hstarting]
    rfl
  | step before step ih => exact (ih.step hjob before step).others hs

/-- Since the execution has left the running set, nothing has become of it. If there is a cleanup among the last steps,
it is still to come, or else no files have gone but those that it deletes. -/
def SinceLeaving (s : Surroundings ω) (start : Run ω) (w₀ : Worker ω) (r : Run ω) (w : Worker ω) : RunPhase ω → Prop
  | .after hooks => ∃ w₂, Leads s start w₀ { r with phase := .leaving } w₂ ∧
    (.cleanUp ∈ start.listeners.flatMap Listener.after →
      (.cleanUp ∈ hooks ∧ w.files = w₂.files) ∨ r.execution.CleanedUp w₂.files w.files)
  | .ended => ∃ w₂, Leads s start w₀ { r with phase := .leaving } w₂ ∧
    (.cleanUp ∈ start.listeners.flatMap Listener.after → r.execution.CleanedUp w₂.files w.files)
  | _ => True

private theorem SinceLeaving.others {phase : RunPhase ω} (h : SinceLeaving s start w₀ r w phase)
    (hfiles : ∀ w, (s.others w).files = w.files) : SinceLeaving s start w₀ r (s.others w) phase := by
  unfold SinceLeaving at h ⊢
  rw [hfiles]
  exact h

private theorem SinceLeaving.step (hleads : Leads s start w₀ r w) (h : SinceLeaving s start w₀ r w r.phase)
    (hstep : r.step? s w = some (r', w')) : SinceLeaving s start w₀ r' w' r'.phase := by
  have hlisteners := hleads.constants.1
  obtain ⟨listeners, job, e, phase⟩ := r
  dsimp only at hlisteners
  subst hlisteners
  cases phase with
  | ended => cases hstep
  | starting =>
    cases hstep
    trivial
  | before hooks =>
    cases hooks with
    | nil =>
      cases hstep
      trivial
    | cons hook rest =>
      cases hstep
      trivial
  | deciding =>
    cases hstep
    dsimp only
    split <;> trivial
  | working parts =>
    cases parts with
    | nil =>
      cases hstep
      trivial
    | cons part rest => obtain ⟨e₂, -, rfl⟩ | ⟨f, e₂, -, rfl⟩ := step_working hstep <;> trivial
  | concluding result =>
    cases hstep
    trivial
  | leaving =>
    cases hstep
    exact ⟨w, hleads, fun hmem => .inl ⟨hmem, rfl⟩⟩
  | after hooks =>
    obtain ⟨w₂, hleft, hcleanup⟩ := h
    cases hooks with
    | nil =>
      cases hstep
      refine ⟨w₂, hleft, fun hmem => ?_⟩
      obtain ⟨hnone, -⟩ | hclean := hcleanup hmem
      · cases hnone
      · exact hclean
    | cons hook rest =>
      cases hstep
      refine ⟨w₂, hleft, fun hmem => ?_⟩
      obtain ⟨hcoming, hfiles⟩ | hclean := hcleanup hmem
      · by_cases hhook : hook = .cleanUp
        · subst hhook
          rw [← hfiles]
          exact .inr (Hook.cleanedUp_cleanUp s e w)
        · have hrest : .cleanUp ∈ rest := (List.mem_cons.mp hcoming).resolve_left (Ne.symm hhook)
          exact .inl ⟨List.mem_append_right _ hrest, (Hook.act_files hhook).trans hfiles⟩
      · exact .inr (Hook.cleanedUp_act hclean)

/-- Whatever has become of a run, once it has ended it has cleaned up what was there when it left the running set. -/
theorem Leads.left (hfiles : ∀ w, (s.others w).files = w.files) (hstarting : start.phase = .starting)
    (h : Leads s start w₀ r w) (hended : r.phase = .ended) :
    ∃ w₂, Leads s start w₀ { r with phase := .leaving } w₂ ∧
      (.cleanUp ∈ start.listeners.flatMap Listener.after → r.execution.CleanedUp w₂.files w.files) := by
  have hsince : SinceLeaving s start w₀ r w r.phase := by
    clear hended
    induction h with
    | refl =>
      rw [hstarting]
      trivial
    | step before step ih => exact (ih.step before step).others hfiles
  rw [hended] at hsince
  exact hsince

theorem cleanUp_mem_after {described : List DescribedStep} (h : .notifier described ∈ start.listeners) :
    .cleanUp ∈ start.listeners.flatMap Listener.after :=
  List.mem_flatMap.mpr ⟨_, h, by simp [Listener.after]⟩

/-- A run that has completed has run its part and has cleaned up since. -/
theorem Leads.completed (hs : s.SpareFiles) (hstarting : start.phase = .starting) (hjob : start.job = [part])
    {described : List DescribedStep} (hnotifier : .notifier described ∈ start.listeners) (h : Leads s start w₀ r w)
    (hended : r.phase = .ended) (hcompleted : r.execution.status = .completed) :
    ∃ w₂, HasCompleted s start w₀ part r.execution w₂ ∧ r.execution.CleanedUp w₂.files w.files := by
  obtain ⟨w₁, hleft, hcleaned⟩ := h.left hs.files hstarting hended
  obtain ⟨w₂, hdone, hfiles⟩ := hleft.progress hs hstarting hjob hcompleted
  exact ⟨w₂, hdone, hfiles ▸ hcleaned (cleanUp_mem_after hnotifier)⟩

/-- A run that has completed has run its part. -/
theorem Leads.hasCompleted (hs : s.SpareFiles) (hstarting : start.phase = .starting) (hjob : start.job = [part])
    (h : Leads s start w₀ r w) (hended : r.phase = .ended) (hcompleted : r.execution.status = .completed) :
    ∃ w₂, HasCompleted s start w₀ part r.execution w₂ := by
  obtain ⟨w₁, hleft, -⟩ := h.left hs.files hstarting hended
  obtain ⟨w₂, hdone, -⟩ := hleft.progress hs hstarting hjob hcompleted
  exact ⟨w₂, hdone⟩

/-- Until the part begins, the files are as they were. -/
private def Untouched (part : JobPart ω) (w₀ w : Worker ω) : RunPhase ω → Prop
  | .starting | .deciding => w.files = w₀.files
  | .before hooks => .cleanUp ∉ hooks ∧ w.files = w₀.files
  | .working parts => parts = [] ∨ parts = [part] ∧ w.files = w₀.files
  | _ => True

private theorem Untouched.others {phase : RunPhase ω} (h : Untouched part w₀ w phase) (hs : s.SpareFiles) :
    Untouched part w₀ (s.others w) phase := by
  unfold Untouched at h ⊢
  rw [hs.files]
  exact h

private theorem cleanUp_not_before (listeners : List Listener) : .cleanUp ∉ listeners.flatMap Listener.before := by
  intro hmem
  obtain ⟨listener, -, hlistener⟩ := List.mem_flatMap.mp hmem
  cases listener <;> simp [Listener.before] at hlistener

private theorem Untouched.step (hjob : r.job = [part]) (h : Untouched part w₀ w r.phase)
    (hstep : r.step? s w = some (r', w')) : Untouched part w₀ w' r'.phase := by
  obtain ⟨listeners, job, e, phase⟩ := r
  dsimp only at hjob
  subst hjob
  cases phase with
  | ended => cases hstep
  | starting =>
    cases hstep
    exact ⟨cleanUp_not_before listeners, h⟩
  | before hooks =>
    obtain ⟨hnone, hfiles⟩ := h
    cases hooks with
    | nil =>
      cases hstep
      exact hfiles
    | cons hook rest =>
      cases hstep
      obtain ⟨hhook, hrest⟩ := not_or.mp (mt List.mem_cons.mpr hnone)
      have hmore : .cleanUp ∉ (hook.act s e w).1 := by
        rcases Hook.act_more s e w hook with hmore | ⟨-, hmore⟩ <;> simp [hmore]
      refine ⟨fun hmem => (List.mem_append.mp hmem).elim hmore hrest, ?_⟩
      exact (Hook.act_files (Ne.symm hhook)).trans hfiles
  | deciding =>
    cases hstep
    dsimp only
    split
    · trivial
    · exact .inr ⟨rfl, h⟩
  | working parts =>
    obtain rfl | ⟨rfl, hfiles⟩ := h
    · cases hstep
      trivial
    · obtain ⟨e₂, -, rfl⟩ | ⟨f, e₂, -, rfl⟩ := step_working hstep
      · exact .inl rfl
      · trivial
  | concluding result =>
    cases hstep
    trivial
  | leaving =>
    cases hstep
    trivial
  | after hooks =>
    cases hooks with
    | nil =>
      cases hstep
      trivial
    | cons hook rest =>
      cases hstep
      trivial

/-- The part finds the files as they were at the start of the run. -/
theorem Works.files {e₁ e₂ : Execution} {w₁ w₂ : Worker ω} (hs : s.SpareFiles) (hstarting : start.phase = .starting)
    (hjob : start.job = [part]) (h : Works s start w₀ part e₁ w₁ e₂ w₂) : w₁.files = w₀.files := by
  have huntouched {r : Run ω} {w : Worker ω} (hleads : Leads s start w₀ r w) : Untouched part w₀ w r.phase := by
    induction hleads with
    | refl =>
      rw [hstarting]
      rfl
    | step before step ih => exact (ih.step (before.constants.2.trans hjob) step).others hs
  rcases huntouched h.reached with hnone | ⟨-, hfiles⟩
  · cases hnone
  · exact hfiles

/-- How the body has come to its end: a stop left it out, or its part has run. -/
inductive Body (s : Surroundings ω) (start : Run ω) (w₀ : Worker ω) (part : JobPart ω) :
    Except Failure Unit → Execution → Prop
  | leftOut {e : Execution} {w : Worker ω} (reached : Leads s start w₀ { start with execution := e, phase := .deciding } w)
      (started : ∃ now, e = start.execution.markStarted now) (asked : w.stopRequested e.id = true) :
      Body s start w₀ part (.ok ()) e
  | ran {result : Except Failure Unit} {e₁ e₂ : Execution} {w₁ w₂ : Worker ω}
      (reached : Leads s start w₀ { start with execution := e₁, phase := .working [part] } w₁)
      (started : ∃ now, e₁ = start.execution.markStarted now) (act : part.act.run (e₁, w₁) = some (result, e₂, w₂)) :
      Body s start w₀ part result e₂

/-- How far a run with one part has come. -/
def Course (s : Surroundings ω) (start : Run ω) (w₀ : Worker ω) (part : JobPart ω) (e : Execution) : RunPhase ω → Prop
  | .starting => e = start.execution
  | .before _ | .deciding => ∃ now, e = start.execution.markStarted now
  | .working parts =>
    (parts = [part] ∧ ∃ now, e = start.execution.markStarted now) ∨ (parts = [] ∧ Body s start w₀ part (.ok ()) e)
  | .concluding result => Body s start w₀ part result e
  | .leaving | .after _ | .ended =>
    ∃ result e₁ stopped now, Body s start w₀ part result e₁ ∧ e = e₁.conclude result stopped now

private theorem Course.step (hjob : start.job = [part]) (hleads : Leads s start w₀ r w)
    (h : Course s start w₀ part r.execution r.phase) (hstep : r.step? s w = some (r', w')) :
    Course s start w₀ part r'.execution r'.phase := by
  obtain ⟨hlisteners, hjob'⟩ := hleads.constants
  obtain ⟨listeners, job, e, phase⟩ := r
  dsimp only at hlisteners hjob'
  subst hlisteners hjob'
  cases phase with
  | ended => cases hstep
  | starting =>
    cases hstep
    cases h
    exact ⟨_, rfl⟩
  | before hooks =>
    cases hooks with
    | nil =>
      cases hstep
      exact h
    | cons hook rest =>
      cases hstep
      exact h
  | deciding =>
    cases hstep
    dsimp only
    split
    · exact .leftOut hleads h ‹_›
    · exact .inl ⟨hjob, h⟩
  | working parts =>
    obtain ⟨rfl, hstarted⟩ | ⟨rfl, hbody⟩ := h
    · obtain ⟨e₂, hact, rfl⟩ | ⟨f, e₂, hact, rfl⟩ := step_working hstep
      · exact .inr ⟨rfl, .ran hleads hstarted hact⟩
      · exact .ran hleads hstarted hact
    · cases hstep
      exact hbody
  | concluding result =>
    cases hstep
    exact ⟨result, e, _, _, h, rfl⟩
  | leaving =>
    cases hstep
    exact h
  | after hooks =>
    cases hooks with
    | nil =>
      cases hstep
      exact h
    | cons hook rest =>
      cases hstep
      exact h

theorem Leads.course (hstarting : start.phase = .starting) (hjob : start.job = [part]) (h : Leads s start w₀ r w) :
    Course s start w₀ part r.execution r.phase := by
  induction h with
  | refl =>
    rw [hstarting]
    rfl
  | step before step ih => exact ih.step hjob before step

/-- A run leaves the parameters of its execution alone if its part does. -/
theorem Leads.parameters (hkeeps : part.act.Keeps fun x y => y.1.parameters = x.1.parameters)
    (hstarting : start.phase = .starting) (hjob : start.job = [part]) (h : Leads s start w₀ r w)
    (hended : r.phase = .ended) : r.execution.parameters = start.execution.parameters := by
  have hcourse := h.course hstarting hjob
  rw [hended] at hcourse
  obtain ⟨result, e, stopped, now, hbody, heq⟩ := hcourse
  rw [heq, Execution.conclude_parameters]
  cases hbody with
  | leftOut reached started asked =>
    obtain ⟨now, rfl⟩ := started
    rfl
  | ran reached started act =>
    obtain ⟨now, rfl⟩ := started
    exact hkeeps _ _ _ act

/-- A run that has ended completed was not asked for a stop when it was marked, and its body has not failed. -/
theorem Leads.succeeded (hstarting : start.phase = .starting) (hjob : start.job = [part]) (h : Leads s start w₀ r w)
    (hended : r.phase = .ended) (hcompleted : r.execution.status = .completed) :
    ∃ e now, Body s start w₀ part (.ok ()) e ∧ r.execution = e.conclude (.ok ()) false now := by
  have hcourse := h.course hstarting hjob
  rw [hended] at hcourse
  obtain ⟨result, e, stopped, now, hbody, heq⟩ := hcourse
  rw [heq] at hcompleted
  obtain ⟨rfl, rfl⟩ := Execution.conclude_completed hcompleted
  exact ⟨e, now, hbody, heq⟩

/-- A run that has ended stopped was asked for this, and its body has not failed. -/
theorem Leads.stopped (hstarting : start.phase = .starting) (hjob : start.job = [part]) (h : Leads s start w₀ r w)
    (hended : r.phase = .ended) (hstopped : r.execution.status = .stopped) :
    ∃ e now, Body s start w₀ part (.ok ()) e ∧ r.execution = e.conclude (.ok ()) true now := by
  have hcourse := h.course hstarting hjob
  rw [hended] at hcourse
  obtain ⟨result, e, stopped, now, hbody, heq⟩ := hcourse
  rw [heq] at hstopped
  obtain ⟨rfl, rfl⟩ := Execution.conclude_stopped hstopped
  exact ⟨e, now, hbody, heq⟩

end Run
end BatchExport
