import BatchExport.Execution
import BatchExport.Proofs.Story

/-! Marks and failures of an execution, in any order. Main statement: a finished execution shows the mark that finished
it as things stood at that mark, and every execution shows whether it was started and all failures that were added. -/
namespace BatchExport
namespace Execution

/-- What happens to an execution. -/
inductive Call where
  | markStarted
  | markStopping
  | markCompleted
  | markFailed
  | markStopped
  | addFailure (f : RecordedFailure)

namespace Call

def apply (e : Execution) (now : Instant) : Call → Execution
  | markStarted => e.markStarted now
  | markStopping => e.markStopping now
  | markCompleted => e.markCompleted now
  | markFailed => e.markFailed now
  | markStopped => e.markStopped now
  | addFailure f => e.addFailure f now

/-- The status that a mark finishes an execution with. -/
def finishes? : Call → Option BatchStatus
  | markCompleted => some .completed
  | markFailed => some .failed
  | markStopped => some .stopped
  | markStarted | markStopping | addFailure _ => none

def failure? : Call → Option RecordedFailure
  | addFailure f => some f
  | markStarted | markStopping | markCompleted | markFailed | markStopped => none

/-- It neither starts nor finishes an execution. -/
def IsQuiet (c : Call) : Prop := c ≠ markStarted ∧ c.finishes? = none

end Call

/-- Calls and when they were made, oldest first. -/
abbrev History := List (Call × Instant)

def after (e : Execution) (history : History) : Execution := history.foldl (fun e (call, now) => call.apply e now) e

/-- The end that a mark puts to an execution. -/
structure Finish where
  status : BatchStatus
  time : Instant
  /-- The failures that were recorded before the mark, oldest first. -/
  known : List RecordedFailure

/-- A failed execution tells the last failure that was known then, if there was one. -/
def Finish.description (finish : Finish) : String :=
  if finish.status = .failed then finish.known.getLast?.elim "" (·.message) else ""

namespace History

/-- The failures that were added, oldest first. -/
def failures (history : History) : List RecordedFailure := history.filterMap (·.1.failure?)

/-- The mark that set a final status: since then, nothing has finished or started the execution again. -/
def EndsWith (history : History) (finish : Finish) : Prop :=
  ∃ (earlier : History) (mark : Call) (later : History), history = earlier ++ (mark, finish.time) :: later ∧
    mark.finishes? = some finish.status ∧ earlier.failures = finish.known ∧ ∀ call ∈ later, call.1.IsQuiet

end History

/-- The execution is as the mark has left it. -/
structure Shows (e : Execution) (finish : Finish) : Prop where
  status : e.status = finish.status
  ended : e.ended = some finish.time
  code : e.exit.code = finish.status.name
  description : e.exit.description = finish.description

/-- What an execution says about the calls that were made on it. -/
structure Reflects (history : History) (e : Execution) : Prop where
  /-- The status is final exactly as long as a finishing mark stands. -/
  isTerminal_iff : e.status.isTerminal = true ↔ ∃ finish, history.EndsWith finish
  shows : ∀ finish, history.EndsWith finish → e.Shows finish
  started_iff : e.started.isSome = true ↔ ∃ call ∈ history, call.1 = .markStarted
  failures_eq : e.failures = history.failures
  /-- Asked to stop, a finished execution does not change at all; of any other, the status and the stamp do. -/
  stops : ∀ now, e.markStopping now =
    if e.status.isTerminal then e else { e with status := .stopping, updated := now }

variable {history : History} {finish : Finish} {c : Call} {e : Execution} {now : Instant} {status : BatchStatus}

theorem Call.kinds (c : Call) : c = markStarted ∨ (∃ status, c.finishes? = some status) ∨ c.IsQuiet := by
  by_cases hstart : c = markStarted
  · exact .inl hstart
  · cases hfinish : c.finishes? with
    | none => exact .inr (.inr ⟨hstart, hfinish⟩)
    | some status => exact .inr (.inl ⟨status, rfl⟩)

theorem Call.IsQuiet.eq (hc : c.IsQuiet) : c = .markStopping ∨ ∃ f, c = .addFailure f := by
  cases c with
  | markStarted => exact absurd rfl hc.1
  | markCompleted | markFailed | markStopped => cases hc.2
  | markStopping => exact .inl rfl
  | addFailure f => exact .inr ⟨f, rfl⟩

/-! The history, call by call -/

namespace History

theorem failures_snoc (history : History) (c : Call) (now : Instant) :
    failures (history ++ [(c, now)]) = history.failures ++ c.failure?.toList := by
  rw [failures, List.filterMap_append]
  cases c <;> rfl

theorem endsWith_snoc_iff : EndsWith (history ++ [(c, now)]) finish ↔
    (c.finishes? = some finish.status ∧ finish = ⟨finish.status, now, history.failures⟩) ∨
      (c.IsQuiet ∧ history.EndsWith finish) := by
  constructor
  · rintro ⟨earlier, mark, later, hsplit, hfinishes, hknown, hquiet⟩
    -- The mark is the newest call, or the newest call is one of those after it.
    obtain ⟨rfl, hcall, rfl⟩ | ⟨more, rfl, rfl⟩ := snoc_eq_split_iff.mp hsplit
    · cases hcall
      exact .inl ⟨hfinishes, by rw [hknown]⟩
    · exact .inr ⟨hquiet (c, now) (by simp), earlier, mark, more, rfl, hfinishes, hknown,
        fun call hcall => hquiet call (List.mem_append_left _ hcall)⟩
  · rintro (⟨hfinishes, hfinish⟩ | ⟨hc, earlier, mark, later, hsplit, hfinishes, hknown, hquiet⟩)
    · rw [hfinish]
      exact ⟨history, c, [], rfl, hfinishes, rfl, fun call hcall => absurd hcall List.not_mem_nil⟩
    · refine ⟨earlier, mark, later ++ [(c, now)], ?_, hfinishes, hknown, fun call hcall => ?_⟩
      · exact snoc_eq_split_iff.mpr (.inr ⟨later, hsplit, rfl⟩)
      · obtain hcall | hcall := List.mem_append.mp hcall
        · exact hquiet call hcall
        · obtain rfl := List.mem_singleton.mp hcall
          exact hc

theorem not_endsWith_nil : ¬ EndsWith [] finish := by
  rintro ⟨earlier, mark, later, hsplit, -⟩
  simp at hsplit

theorem not_endsWith_started : ¬ EndsWith (history ++ [(.markStarted, now)]) finish := by
  rw [endsWith_snoc_iff]
  rintro (⟨hfinishes, -⟩ | ⟨hquiet, -⟩)
  · cases hfinishes
  · exact hquiet.1 rfl

theorem endsWith_finished_iff (hc : c.finishes? = some status) :
    EndsWith (history ++ [(c, now)]) finish ↔ finish = ⟨status, now, history.failures⟩ := by
  rw [endsWith_snoc_iff, hc, Option.some_inj]
  constructor
  · rintro (⟨rfl, hfinish⟩ | ⟨hquiet, -⟩)
    · exact hfinish
    · cases hquiet.2.symm.trans hc
  · rintro rfl
    exact .inl ⟨rfl, rfl⟩

theorem endsWith_quiet_iff (hc : c.IsQuiet) : EndsWith (history ++ [(c, now)]) finish ↔ history.EndsWith finish := by
  rw [endsWith_snoc_iff]
  constructor
  · rintro (⟨hfinishes, -⟩ | ⟨-, hends⟩)
    · cases hc.2.symm.trans hfinishes
    · exact hends
  · exact fun hends => .inr ⟨hc, hends⟩

end History

/-! The execution, call by call -/

theorem markStopping_eq (e : Execution) (now : Instant) : e.markStopping now =
    if e.status.isTerminal then e else { e with status := .stopping, updated := now } := by
  rw [markStopping, BatchStatus.isRunning]
  cases e.status.isTerminal <;> rfl

theorem markStopping_of_isTerminal (h : e.status.isTerminal = true) (now : Instant) : e.markStopping now = e := by
  rw [markStopping_eq, if_pos h]

theorem apply_finishing (hc : c.finishes? = some status) : c.apply e now = e.finish status now := by
  cases c <;> cases hc <;> rfl

theorem isTerminal_of_finishes? (hc : c.finishes? = some status) : status.isTerminal = true := by
  cases c <;> cases hc <;> rfl

theorem isTerminal_apply_quiet (hc : c.IsQuiet) : (c.apply e now).status.isTerminal = e.status.isTerminal := by
  obtain rfl | ⟨f, rfl⟩ := hc.eq
  · rw [Call.apply, markStopping_eq]
    cases h : e.status.isTerminal with
    | true => exact h
    | false => rfl
  · rfl

/-- What comes after the end leaves the end as it is. -/
theorem Shows.apply_quiet (h : e.Shows finish) (hend : e.status.isTerminal = true) (hc : c.IsQuiet) :
    (c.apply e now).Shows finish := by
  obtain rfl | ⟨f, rfl⟩ := hc.eq
  · rw [Call.apply, markStopping_of_isTerminal hend]
    exact h
  · exact { h with }

theorem addDescription_withCode (code text : String) :
    (ExitStatus.withCode code).addDescription text = ⟨code, text⟩ := by
  rw [ExitStatus.addDescription]
  split
  · next h => rw [String.isEmpty_iff.mp h, ExitStatus.withCode]
  · rfl

theorem finish_exit (e : Execution) (hstatus : status.isTerminal = true) (now : Instant) :
    (e.finish status now).exit = ⟨status.name, Finish.description ⟨status, now, e.failures⟩⟩ := by
  cases status with
  | starting | started | stopping => cases hstatus
  | completed | stopped => rfl
  | failed =>
    change e.terminalExit .failed = ⟨"FAILED", e.failures.getLast?.elim "" (·.message)⟩
    rw [terminalExit.eq_def]
    cases e.failures.getLast? with
    | none => rfl
    | some f => exact addDescription_withCode "FAILED" f.message

theorem finish_shows (e : Execution) (hstatus : status.isTerminal = true) (now : Instant) :
    (e.finish status now).Shows ⟨status, now, e.failures⟩ := by
  have hexit := e.finish_exit hstatus now
  exact ⟨rfl, rfl, congrArg ExitStatus.code hexit, congrArg ExitStatus.description hexit⟩

theorem started_apply (c : Call) (e : Execution) (now : Instant) :
    (c.apply e now).started.isSome = true ↔ e.started.isSome = true ∨ c = .markStarted := by
  cases c with
  | markStarted => exact ⟨fun _ => .inr rfl, fun _ => rfl⟩
  | markStopping =>
    rw [Call.apply, markStopping_eq]
    split <;> exact (or_iff_left nofun).symm
  | markCompleted | markFailed | markStopped | addFailure f => exact (or_iff_left nofun).symm

theorem failures_apply (c : Call) (e : Execution) (now : Instant) :
    (c.apply e now).failures = e.failures ++ c.failure?.toList := by
  cases c with
  | addFailure f => rfl
  | markStopping =>
    rw [Call.apply, markStopping_eq]
    split <;> exact (List.append_nil _).symm
  | markStarted | markCompleted | markFailed | markStopped => exact (List.append_nil _).symm

namespace Reflects

theorem new (id : ExecutionId) (jobName : String) (parameters : JobParameters) (created : Instant) :
    Reflects [] (.new id jobName parameters created) where
  isTerminal_iff := ⟨nofun, fun ⟨_, hends⟩ => absurd hends History.not_endsWith_nil⟩
  shows _ hends := absurd hends History.not_endsWith_nil
  started_iff := ⟨nofun, fun ⟨_, hcall, _⟩ => absurd hcall List.not_mem_nil⟩
  failures_eq := rfl
  stops := markStopping_eq _

/-- Whether and how the execution has ended, after one more call. -/
theorem ending_apply (h : e.Reflects history) (c : Call) (now : Instant) :
    ((c.apply e now).status.isTerminal = true ↔ ∃ finish, History.EndsWith (history ++ [(c, now)]) finish) ∧
      ∀ finish, History.EndsWith (history ++ [(c, now)]) finish → (c.apply e now).Shows finish := by
  obtain rfl | ⟨status, hc⟩ | hc := c.kinds
  · exact ⟨⟨nofun, fun ⟨_, hends⟩ => absurd hends History.not_endsWith_started⟩,
      fun _ hends => absurd hends History.not_endsWith_started⟩
  · -- Whatever was the case before, the mark starts from the failures known now.
    have hterminal := isTerminal_of_finishes? hc
    simp only [apply_finishing hc, History.endsWith_finished_iff hc]
    refine ⟨⟨fun _ => ⟨_, rfl⟩, fun _ => hterminal⟩, ?_⟩
    rintro _ rfl
    rw [← h.failures_eq]
    exact e.finish_shows hterminal now
  · simp only [isTerminal_apply_quiet hc, History.endsWith_quiet_iff hc]
    exact ⟨h.isTerminal_iff, fun finish hends =>
      (h.shows finish hends).apply_quiet (h.isTerminal_iff.mpr ⟨finish, hends⟩) hc⟩

theorem apply (h : e.Reflects history) (c : Call) (now : Instant) :
    (c.apply e now).Reflects (history ++ [(c, now)]) where
  isTerminal_iff := (h.ending_apply c now).1
  shows := (h.ending_apply c now).2
  started_iff := by simp [started_apply, h.started_iff, or_and_right, exists_or]
  failures_eq := by rw [failures_apply, History.failures_snoc, h.failures_eq]
  stops := markStopping_eq _

theorem after {earlier : History} (h : e.Reflects earlier) (later : History) :
    (e.after later).Reflects (earlier ++ later) := by
  induction later generalizing e earlier with
  | nil =>
    rw [List.append_nil]
    exact h
  | cons call later ih =>
    rw [List.append_cons]
    exact ih (h.apply call.1 call.2)

end Reflects

/-- Whatever is called on a new execution and whenever, the execution reflects all of it. -/
theorem new_after_reflects (id : ExecutionId) (jobName : String) (parameters : JobParameters) (created : Instant)
    (history : History) : ((new id jobName parameters created).after history).Reflects history :=
  (Reflects.new id jobName parameters created).after history

def sample : Execution := new 1 "orders-export" [] ⟨0, 0⟩

/-- An execution that has failed, and to which one more failure was added. -/
def failedSample : Execution := sample.after [(.markStarted, ⟨0, 0⟩), (.addFailure (.ofText "disk full"), ⟨0, 0⟩),
  (.markFailed, ⟨0, 0⟩), (.addFailure (.ofText "late"), ⟨0, 0⟩)]

/-- Asked to stop, an execution that has not ended is stamped too. Marked as failed once more, a failed one tells the
failure that came after the mark that set the status. -/
theorem stopping_stamps_and_failing_again_tells :
    (sample.status.isTerminal = false ∧ sample.markStopping ⟨1, 0⟩ ≠ { sample with status := .stopping } ∧
      sample.updated = ⟨0, 0⟩ ∧ (sample.markStopping ⟨1, 0⟩).updated = ⟨1, 0⟩) ∧
    failedSample.status = .failed ∧ failedSample.exit = ⟨"FAILED", "disk full"⟩ ∧
      (failedSample.markFailed ⟨1, 0⟩).status = .failed ∧ (failedSample.markFailed ⟨1, 0⟩).exit = ⟨"FAILED", "late"⟩ := by
  decide

/-- A failure that comes after the mark is recorded and not told. -/
example : failedSample.failures.map (·.message) = ["disk full", "late"] := rfl

end Execution
end BatchExport
