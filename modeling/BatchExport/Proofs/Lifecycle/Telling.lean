import BatchExport.Proofs.Lifecycle.Moments
import BatchExport.Proofs.Lifecycle.Returning
import BatchExport.Proofs.Lifecycle.Watching

/-! What a run tells those who watch it. Main statement: a run with a notifier publishes twice, acknowledges in between
what is parked, and works at most once; what it comes to does not depend on those who watch it. -/
namespace BatchExport

variable {ω : Type}

namespace Run

section Telling

variable (s : Surroundings ω) (start : Run ω) (w₀ : Worker ω)

/-- The publications of one moment: one, if the job has an id. -/
def Publishes (job? : Option JobId) (status : BatchStatus) (events : List RunEvent) : Prop :=
  match job? with
  | none => events = []
  | some job => ∃ record, record.status = status ∧ events = [.published job record]

/-- What is parked under the id of the job at one moment after the body is acknowledged then, and parked no more. -/
def Releases (job? : Option JobId) (events : List RunEvent) : Prop :=
  match job? with
  | none => events = []
  | some job => ∃ r w rest r' w', Leads s start w₀ r w ∧ r.phase = .after (.acknowledge :: rest) ∧
      r.step? s w = some (r', w') ∧ events = (w.parked.get? job).toList.map .acknowledged ∧ w'.parked.get? job = none

/-- The first parts of a job work, one after the other. -/
def works (n : Nat) : List RunEvent := (List.range n).map .worked

/-- What a run has told once its body is over. -/
def ToldBody (log : List RunEvent) : Prop :=
  ∃ opening n, log = opening ++ works n ∧ Publishes start.execution.jobId? .started opening ∧ n ≤ start.job.length ∧
    (n = 0 ∨ Undisturbed s start w₀)

/-- What a run that is watched has told by now. -/
def Telling (described : List DescribedStep) (job : List (JobPart (List RunEvent × ω))) (e : Execution)
    (log : List RunEvent) : RunPhase (List RunEvent × ω) → Prop
  | .starting => log = []
  | .before hooks => e.status = .started ∧
      ((hooks.filter Hook.talks = [.publish described] ∧ log = []) ∨
        (hooks.filter Hook.talks = [] ∧ Publishes start.execution.jobId? .started log))
  | .deciding => Publishes start.execution.jobId? .started log
  | .working parts => ∃ opening n, log = opening ++ works n ∧ Publishes start.execution.jobId? .started opening ∧
      n ≤ start.job.length ∧ Undisturbed s start w₀ ∧ parts = job.drop n
  | .concluding _ => ToldBody s start w₀ log
  | .leaving => e.status.isTerminal ∧ ToldBody s start w₀ log
  | .after hooks => e.status.isTerminal ∧ ∃ body, ToldBody s start w₀ body ∧
      ((hooks.filter Hook.talks = [.acknowledge, .publish described] ∧ log = body) ∨
        ∃ acks, Releases s start w₀ start.execution.jobId? acks ∧
          ((hooks.filter Hook.talks = [.publish described] ∧ log = body ++ acks) ∨
            ∃ closing, hooks.filter Hook.talks = [] ∧ Publishes start.execution.jobId? e.status closing ∧
              log = body ++ acks ++ closing))
  | .ended => e.status.isTerminal ∧ ∃ body acks closing, ToldBody s start w₀ body ∧
      Releases s start w₀ start.execution.jobId? acks ∧ Publishes start.execution.jobId? e.status closing ∧
      log = body ++ acks ++ closing

end Telling

variable {s : Surroundings ω} {start : Run ω} {w₀ : Worker ω} {described : List DescribedStep}
  {answer : JobId → StatusRecord → List RunEvent → Except Failure Unit} {r r' : Run (List RunEvent × ω)}
  {w w' : Worker (List RunEvent × ω)}

theorem publishes_told {e : Execution} (hjob : e.jobId? = start.execution.jobId?) :
    Publishes start.execution.jobId? e.status ((Hook.publish described).told e w) := by
  rw [Hook.told, hjob]
  cases start.execution.jobId? with
  | none => rfl
  | some job => exact ⟨_, rfl, rfl⟩

section Moments

variable (hstarting : start.phase = .starting)
  (hleads : Leads (s.watched (.recorder answer)) (start.watched (.recorder answer)) (w₀.watched []) r w)
include hstarting hleads

/-- A moment of a run that is watched is one of the run itself. -/
private theorem moment_of_watched : ∃ q, Leads s start w₀ q (w.on Prod.snd) ∧ r.Erases Prod.snd q :=
  Leads.erases (s.watched_erases (.recorder answer)) (start.watched_erases (.recorder answer) hstarting) hleads

private theorem undisturbed_of_watched (hphase : r.phase = .deciding) (hgoing : w.stopRequested r.execution.id = false) :
    Undisturbed s start w₀ := by
  obtain ⟨q, hq, herases⟩ := moment_of_watched hstarting hleads
  have hsame := herases.phase
  rw [hphase] at hsame
  refine ⟨q, w.on Prod.snd, hq, ?_, ?_⟩
  · generalize q.phase = phase at hsame
    cases hsame
    rfl
  · rw [← herases.execution]
    exact hgoing

private theorem releases_of_watched {rest : List Hook} (hphase : r.phase = .after (.acknowledge :: rest))
    (hjob : r.execution.jobId? = start.execution.jobId?) :
    Releases s start w₀ start.execution.jobId? (Hook.acknowledge.told r.execution w) := by
  obtain ⟨q, hq, herases⟩ := moment_of_watched hstarting hleads
  have hsame := herases.phase
  rw [hphase] at hsame
  obtain ⟨listeners, job, e, phase⟩ := q
  have he : r.execution = e := herases.execution
  dsimp only at hsame
  cases hsame
  rw [← hjob, he, Hook.told]
  cases hid : e.jobId? with
  | none => rfl
  | some id =>
    refine ⟨_, _, rest, _, _, hq, rfl, step?_after listeners job e .acknowledge rest, rfl, ?_⟩
    rw [Hook.acknowledge_parked hid, Registry.get?_erase, if_pos rfl]

end Moments

private theorem watched_keepsJob (hjob : ∀ p ∈ start.job, p.KeepsJob) :
    ∀ p ∈ (start.watched (.recorder answer)).parts, p.KeepsJob := by
  intro p hp
  have hp : p ∈ start.job.mapIdx (JobPart.watched (.recorder answer)) := by
    rw [parts, watched] at hp
    simpa using hp
  obtain ⟨i, hi, rfl⟩ := List.mem_mapIdx.mp hp
  rintro ⟨e, w⟩ result ⟨e', w'⟩ hrun
  obtain ⟨⟨result', e₁, w₁⟩, hact, heq⟩ := Option.map_eq_some_iff.mp hrun
  cases heq
  exact hjob _ (List.getElem_mem hi) _ _ _ hact

theorem works_succ (n : Nat) : works (n + 1) = works n ++ [.worked n] := by
  rw [works, List.range_succ, List.map_append]
  rfl

/-- The part whose turn it is works, and tells so. -/
private theorem works_next {n : Nat} {opening : List RunEvent} {part : JobPart (List RunEvent × ω)}
    {rest : List (JobPart (List RunEvent × ω))} (hparts : part :: rest = (start.watched (.recorder answer)).job.drop n)
    (hlog : w.outside.1 = opening ++ works n) {e e' : Execution} {result : Except Failure Unit}
    (hact : part.act.run (e, w) = some (result, e', w')) :
    n < start.job.length ∧ rest = (start.watched (.recorder answer)).job.drop (n + 1) ∧
      w'.outside.1 = opening ++ works (n + 1) := by
  have hlength : (start.watched (.recorder answer)).job.length = start.job.length := by
    rw [watched, List.length_mapIdx]
  have hn : n < (start.watched (.recorder answer)).job.length := by
    by_contra hn
    rw [List.drop_eq_nil_of_le (by omega)] at hparts
    cases hparts
  rw [List.drop_eq_getElem_cons hn] at hparts
  obtain ⟨rfl, rfl⟩ := List.cons.inj hparts
  have hpart : (start.watched (.recorder answer)).job[n] = JobPart.watched (.recorder answer) n start.job[n] := by
    simp only [watched, List.getElem_mapIdx]
  rw [hpart] at hact
  obtain ⟨⟨result', e₁, w₁⟩, -, heq⟩ := Option.map_eq_some_iff.mp hact
  cases heq
  have hworked : w.outside.1 ++ [.worked n] = opening ++ works (n + 1) := by
    rw [hlog, works_succ, List.append_assoc]
  exact ⟨by omega, rfl, hworked⟩

private theorem Telling.step (hstarting : start.phase = .starting)
    (hnotifier : start.listeners.filter Listener.isNotifier = [.notifier described])
    (hjob : ∀ p ∈ start.job, p.KeepsJob)
    (hleads : Leads (s.watched (.recorder answer)) (start.watched (.recorder answer)) (w₀.watched []) r w)
    (h : Telling s start w₀ described r.job r.execution w.outside.1 r.phase)
    (hstep : r.step? (s.watched (.recorder answer)) w = some (r', w')) :
    Telling s start w₀ described r'.job r'.execution w'.outside.1 r'.phase := by
  obtain ⟨hlisteners, hwatched⟩ := hleads.constants
  have hid : r.execution.jobId? = start.execution.jobId? := hleads.jobId? (watched_keepsJob hjob)
  obtain ⟨listeners, job, e, phase⟩ := r
  dsimp only at hlisteners hwatched hid h
  subst hlisteners hwatched
  cases phase with
  | starting =>
    cases hstep
    exact ⟨rfl, .inl ⟨Hook.talks_before hnotifier, h⟩⟩
  | before hooks =>
    obtain ⟨hstatus, hopening⟩ := h
    cases hooks with
    | nil =>
      cases hstep
      obtain ⟨hhooks, -⟩ | ⟨-, hopening⟩ := hopening
      · cases hhooks
      · exact hopening
    | cons hook rest =>
      rw [step?_before] at hstep
      cases hstep
      refine ⟨hstatus, ?_⟩
      obtain ⟨hrest, hlog⟩ | ⟨hrest, hlog⟩ := Hook.act_first s answer hook rest e w
      · rw [hrest, hlog]
        exact hopening
      · rw [hrest] at hopening
        obtain ⟨hhook, hempty⟩ | ⟨hhook, -⟩ := hopening
        · obtain ⟨rfl, hnone⟩ := List.cons.inj hhook
          refine .inr ⟨hnone, ?_⟩
          rw [hlog, hempty, List.nil_append, ← hstatus]
          exact publishes_told hid
        · cases hhook
  | deciding =>
    simp only [step?] at hstep
    split at hstep
    · cases hstep
      exact ⟨_, 0, (List.append_nil _).symm, h, Nat.zero_le _, .inl rfl⟩
    · rename_i hgoing
      cases hstep
      refine ⟨_, 0, (List.append_nil _).symm, h, Nat.zero_le _, ?_, rfl⟩
      exact undisturbed_of_watched hstarting hleads rfl (Bool.eq_false_iff.mpr hgoing)
  | working parts =>
    obtain ⟨opening, n, hlog, hopening, hn, hundisturbed, hparts⟩ := h
    cases parts with
    | nil =>
      cases hstep
      exact ⟨opening, n, hlog, hopening, hn, .inr hundisturbed⟩
    | cons part rest =>
      obtain ⟨e', hact, rfl⟩ | ⟨f, e', hact, rfl⟩ := step_working hstep
      · obtain ⟨hlt, hrest, hlog'⟩ := works_next hparts hlog hact
        exact ⟨opening, n + 1, hlog', hopening, hlt, hundisturbed, hrest⟩
      · obtain ⟨hlt, -, hlog'⟩ := works_next hparts hlog hact
        exact ⟨opening, n + 1, hlog', hopening, hlt, .inr hundisturbed⟩
  | concluding result =>
    cases hstep
    exact ⟨Execution.conclude_terminal _ _ _ _, h⟩
  | leaving =>
    cases hstep
    exact ⟨h.1, _, h.2, .inl ⟨Hook.talks_after hnotifier, rfl⟩⟩
  | after hooks =>
    obtain ⟨hterminal, body, hbody, htold⟩ := h
    cases hooks with
    | nil =>
      cases hstep
      obtain ⟨hhooks, -⟩ | ⟨acks, hacks, ⟨hhooks, -⟩ | ⟨closing, -, hclosing, hlog⟩⟩ := htold
      · cases hhooks
      · cases hhooks
      · exact ⟨hterminal, body, acks, closing, hbody, hacks, hclosing, hlog⟩
    | cons hook rest =>
      rw [step?_after] at hstep
      cases hstep
      refine ⟨hterminal, body, hbody, ?_⟩
      obtain ⟨hrest, hlog⟩ | ⟨hrest, hlog⟩ := Hook.act_first s answer hook rest e w
      · rw [hrest, hlog]
        exact htold
      · rw [hrest] at htold
        obtain ⟨hhook, hsame⟩ | ⟨acks, hacks, ⟨hhook, hsame⟩ | ⟨closing, hhook, -⟩⟩ := htold
        · obtain ⟨rfl, hnext⟩ := List.cons.inj hhook
          refine .inr ⟨_, releases_of_watched hstarting hleads rfl hid, .inl ⟨hnext, ?_⟩⟩
          rw [hlog, hsame]
        · obtain ⟨rfl, hnone⟩ := List.cons.inj hhook
          have hclosing : Publishes start.execution.jobId? e.status ((Hook.publish described).told e w) :=
            publishes_told hid
          refine .inr ⟨acks, hacks, .inr ⟨_, hnone, hclosing, ?_⟩⟩
          rw [hlog, hsame]
        · cases hhook
  | ended => cases hstep

private theorem Leads.telling (hstarting : start.phase = .starting)
    (hnotifier : start.listeners.filter Listener.isNotifier = [.notifier described])
    (hjob : ∀ p ∈ start.job, p.KeepsJob)
    (hleads : Leads (s.watched (.recorder answer)) (start.watched (.recorder answer)) (w₀.watched []) r w) :
    Telling s start w₀ described r.job r.execution w.outside.1 r.phase := by
  induction hleads with
  | refl => rfl
  | step before step ih =>
    have hnext := Telling.step hstarting hnotifier hjob before ih step
    exact hnext

section Told

variable (s : Surroundings ω) (start : Run ω) (w₀ : Worker ω)

/-- A stop is asked for before the body, and nobody withdraws a request to stop. -/
def StoppedEarly : Prop :=
  (∀ w id, w.stopRequested id → (s.others w).stopRequested id) ∧
    ∃ r w, Leads s start w₀ r w ∧ r.IsEarly ∧ w.stopRequested r.execution.id

/-- All that a run tells which ends with a status. -/
def Told (status : BatchStatus) (log : List RunEvent) : Prop :=
  ∃ opening n acks closing, log = opening ++ works n ++ acks ++ closing ∧
    Publishes start.execution.jobId? .started opening ∧ n ≤ start.job.length ∧ (StoppedEarly s start w₀ → n = 0) ∧
    Releases s start w₀ start.execution.jobId? acks ∧ Publishes start.execution.jobId? status closing

/-- Without a job id, only the job itself deletes files or takes what is parked. -/
private theorem step_nameless {r r' : Run ω} {w w' : Worker ω} (hjob : r.execution.jobId? = none)
    (hphase : ∀ parts, r.phase ≠ .working parts) (h : r.step? s w = some (r', w')) :
    w'.files = w.files ∧ w'.parked = w.parked := by
  obtain ⟨hook, rest, -, -, rfl⟩ | ⟨part, rest, result, hworking, -⟩ | ⟨-, running, rfl⟩ := step_kinds h
  · cases hook with
    | observe moment name => exact ⟨rfl, rfl⟩
    | forgetBinding =>
      simp only [Hook.act, hjob]
      cases r.execution.status <;> exact ⟨rfl, rfl⟩
    | _ => simp only [Hook.act, hjob, and_self]
  · exact absurd hworking (hphase _)
  · exact ⟨rfl, rfl⟩

variable {s start w₀}

private theorem told_of_telling {job : List (JobPart (List RunEvent × ω))} {e : Execution} {log : List RunEvent}
    (h : Telling s start w₀ described job e log .ended) : e.status.isTerminal = true ∧ Told s start w₀ e.status log := by
  obtain ⟨hterminal, body, acks, closing, ⟨opening, n, rfl, hopening, hn, hstop⟩, hacks, hclosing, hlog⟩ := h
  refine ⟨hterminal, opening, n, acks, closing, hlog, hopening, hn, ?_, hacks, hclosing⟩
  rintro ⟨hothers, q, v, hleads, hearly, hasked⟩
  obtain hzero | hundisturbed := hstop
  · exact hzero
  · rw [hundisturbed.not_asked hothers hleads hearly] at hasked
    cases hasked

end Told

/-- Whatever the publisher answers, a run with a notifier that ends has published twice if its job has an id, once
before its body and once after it, and has acknowledged in between what was parked. Parts of the job work at most once
each, and none if a stop was asked for before. A run whose parts answer does end. Without a job id there is nothing but
the body, and no file is deleted. The execution does not depend on those who watch. -/
theorem run_tells (s : Surroundings ω) (answer : JobId → StatusRecord → List RunEvent → Except Failure Unit)
    (start : Run ω) (w₀ : Worker ω) {described : List DescribedStep} (hstarting : start.phase = .starting)
    (hnotifier : start.listeners.filter Listener.isNotifier = [.notifier described])
    (hjob : ∀ p ∈ start.job, p.KeepsJob) :
    (∀ isTimeToLeave fuel r w, start.goOn s isTimeToLeave fuel w₀ = (r, w) → r.isEnded = true →
      ∃ watched log, (start.watched (.recorder answer)).goOn (s.watched (.recorder answer))
          (fun w => isTimeToLeave (w.on Prod.snd)) fuel (w₀.watched []) = (watched, w.watched log) ∧
        watched.execution = r.execution ∧ r.execution.status.isTerminal = true ∧
        Told s start w₀ r.execution.status log) ∧
    ((∀ p ∈ start.job, p.Answers) → ∀ fuel, start.left ≤ fuel →
      (start.goOn s (fun _ => false) fuel w₀).1.isEnded = true) ∧
    (start.execution.jobId? = none → ∀ r w r' w', Leads s start w₀ r w → (∀ parts, r.phase ≠ .working parts) →
      r.step? s w = some (r', w') → w'.files = w.files ∧ w'.parked = w.parked) ∧
    ∀ {ν : Type} (a : Audience ν) (n : ν) isTimeToLeave fuel,
      ((start.watched a).goOn (s.watched a) (fun w => isTimeToLeave (w.on Prod.snd)) fuel
        (w₀.watched n)).1.execution = (start.goOn s isTimeToLeave fuel w₀).1.execution := by
  have hparts : start.parts = start.job := by
    rw [parts, hstarting]
    exact List.append_nil _
  refine ⟨?_, ?_, ?_, ?_⟩
  · intro isTimeToLeave fuel r w hrun hended
    have hsame := goOn_erases (s.watched_erases (.recorder answer)) (start.watched_erases (.recorder answer) hstarting)
      (w₀.watched []) isTimeToLeave fuel
    generalize hall : (start.watched (.recorder answer)).goOn (s.watched (.recorder answer))
      (fun w => isTimeToLeave (w.on Prod.snd)) fuel (w₀.watched []) = all at hsame
    obtain ⟨watched, v⟩ := all
    obtain ⟨herases, hworker⟩ := hsame
    have hsmall : start.goOn s isTimeToLeave fuel ((w₀.watched ([] : List RunEvent)).on Prod.snd) = (r, w) := hrun
    rw [hsmall] at herases hworker
    dsimp only at herases hworker
    have hphase : watched.phase = .ended := by
      have hphases := herases.phase
      rw [phase_of_isEnded hended] at hphases
      generalize watched.phase = phase at hphases
      cases hphases
      rfl
    have htelling := Leads.telling hstarting hnotifier hjob (leads_of_goOn hall)
    rw [hphase, herases.execution] at htelling
    obtain ⟨hterminal, htold⟩ := told_of_telling htelling
    refine ⟨watched, v.outside.1, ?_, herases.execution, hterminal, htold⟩
    rw [← hworker]
    rfl
  · intro hanswers fuel hfuel
    rw [← hparts] at hanswers
    exact goOn_ends hanswers hfuel w₀
  · intro hnameless r w r' w' hleads hphase hstep
    rw [← hparts] at hjob
    have hnone : r.execution.jobId? = none := (hleads.jobId? hjob).trans hnameless
    exact step_nameless s hnone hphase hstep
  · intro ν a n isTimeToLeave fuel
    exact (goOn_erases (s.watched_erases a) (start.watched_erases a hstarting) (w₀.watched n)
      isTimeToLeave fuel).1.execution

end Run

namespace Refused

/-- A publisher that refuses all that it is sent. -/
def surroundings : Surroundings Unit where
  publish _ _ := .ofStep fun x => (.error (.publication "refused"), x)
  restorer := { finish := fun _ snapshot => pure snapshot }

/-- The blanks around the job id do not count. -/
def run : Run Unit where
  listeners := [.observer "log", .notifier [], .rollback]
  job := [.ofChange fun e w => (e.putContext "rows" "2", w)]
  execution := .new 1 "orders-export" [(Key.jobId, " J1 ")] ⟨0, 0⟩

def worker : Worker Unit where
  parked := Registry.empty.put ⟨"J1"⟩ ⟨"first"⟩
  cache := .new 0 [] none
  files := .empty []
  now := ⟨0, 0⟩
  outside := ()

def answer : JobId → StatusRecord → List RunEvent → Except Failure Unit := fun _ _ _ => .error (.publication "refused")

/-- The kind of an event, with what is published or acknowledged. -/
def brief : RunEvent → String × String
  | .published job record => (job.text, record.status.name)
  | .acknowledged a => ("acknowledged", a.tag)
  | .worked _ => ("worked", "")

theorem run_tells_refused :
    ∃ r w watched log, run.goOn surroundings (fun _ => false) 20 worker = (r, w) ∧
      (run.watched (.recorder answer)).goOn (surroundings.watched (.recorder answer)) (fun _ => false) 20
        (worker.watched []) = (watched, w.watched log) ∧
      Run.Told surroundings run worker .completed log ∧ watched.execution.context = [("rows", "2")] ∧
      log.map brief = [("J1", "STARTED"), ("worked", ""), ("acknowledged", "first"), ("J1", "COMPLETED")] := by
  have hjob : ∀ p ∈ run.job, p.KeepsJob := by
    intro p hp
    rw [List.mem_singleton.mp hp]
    rintro ⟨e, w⟩ result ⟨e', w'⟩ hrun
    cases hrun
    rfl
  have hanswers : ∀ p ∈ run.job, p.Answers := by
    intro p hp e w
    rw [List.mem_singleton.mp hp]
    exact ⟨rfl, _, rfl⟩
  obtain ⟨htells, hends, -⟩ := Run.run_tells surroundings answer run worker rfl rfl hjob
  obtain ⟨watched, log, hwatched, hexecution, -, htold⟩ :=
    htells (fun _ => false) 20 _ _ (Prod.eta _).symm (hends hanswers 20 (by decide))
  have hlog : ((run.watched (.recorder answer)).goOn (surroundings.watched (.recorder answer)) (fun _ => false) 20
      (worker.watched [])).2.outside.1.map brief =
        [("J1", "STARTED"), ("worked", ""), ("acknowledged", "first"), ("J1", "COMPLETED")] := by
    decide
  have hcompleted : (run.goOn surroundings (fun _ => false) 20 worker).1.execution.status = .completed ∧
      (run.goOn surroundings (fun _ => false) 20 worker).1.execution.context = [("rows", "2")] := by
    decide
  rw [hcompleted.1] at htold
  refine ⟨_, _, watched, log, (Prod.eta _).symm, hwatched, htold, ?_, ?_⟩
  · rw [hexecution]
    exact hcompleted.2
  · rw [hwatched] at hlog
    exact hlog

end Refused
end BatchExport
