import BatchExport.Lifecycle.Worker
import BatchExport.Proofs.Story
import Mathlib.Data.List.Induction

/-! What happens to the handles that confirm messages. Main statements: in a lawful story none is acknowledged twice,
and unless two deliveries for one job overlap, each is acknowledged after the body of its own run. -/
namespace BatchExport

/-- Deliveries are known by their position. -/
inductive HandleEvent where
  | parked (i : Nat) (job : JobId) (a : Acknowledgement)
  /-- The body of a run is over, also if a stop has left it out. -/
  | finished (i : Nat)
  /-- A run takes what is parked for its job and acknowledges it. -/
  | released (i : Nat) (job : JobId) (found : Option Acknowledgement)
  deriving DecidableEq

namespace HandleEvent

def acknowledges (a : Acknowledgement) : HandleEvent → Bool
  | released _ _ found => found = some a
  | _ => false

theorem acknowledges_iff {a : Acknowledgement} {event : HandleEvent} :
    event.acknowledges a = true ↔ ∃ k job, event = released k job (some a) := by
  cases event with
  | parked i job b => simp [acknowledges]
  | finished i => simp [acknowledges]
  | released k job found => simp [acknowledges]

/-- What an event does to the handle that is parked for a job, kept with its delivery. -/
def applyTo (job : JobId) (held : Option (Nat × Acknowledgement)) : HandleEvent → Option (Nat × Acknowledgement)
  | parked i job' a => if job = job' then some (i, a) else held
  | finished _ => held
  | released _ job' _ => if job = job' then none else held

/-- The last handle parked for a job, unless a run has taken it since. -/
def pending (job : JobId) (tr : List HandleEvent) : Option (Nat × Acknowledgement) := tr.foldl (applyTo job) none

@[simp] theorem pending_snoc (job : JobId) (tr : List HandleEvent) (event : HandleEvent) :
    pending job (tr ++ [event]) = event.applyTo job (pending job tr) := by
  rw [pending, List.foldl_append]
  rfl

/-- A delivery parks once, a handle of its own. A run takes what is pending, once it has parked and its body is over. -/
def Follows (tr : List HandleEvent) : HandleEvent → Prop
  | parked i _ a => ∀ k job b, parked k job b ∈ tr → k ≠ i ∧ b ≠ a
  | finished _ => True
  | released i job found => finished i ∈ tr ∧ (∃ a, parked i job a ∈ tr) ∧ found = (pending job tr).map Prod.snd

/-- Each event follows from those before it. -/
def Lawful (tr : List HandleEvent) : Prop := ∀ before event after, tr = before ++ event :: after → event.Follows before

variable {tr : List HandleEvent} {event : HandleEvent} {job job' : JobId} {i k : Nat} {a b : Acknowledgement}

theorem lawful_nil : Lawful [] := Obeys.nil

theorem lawful_snoc : Lawful (tr ++ [event]) ↔ Lawful tr ∧ event.Follows tr := Obeys.snoc_iff

/-- What is pending has been parked, and nothing has been parked for the job since. -/
theorem parked_of_pending (h : pending job tr = some (i, a)) :
    ∃ before after, tr = before ++ parked i job a :: after ∧ ∀ k b, parked k job b ∉ after := by
  induction tr using List.reverseRecOn with
  | nil => cases h
  | append_singleton tr event ih =>
    rw [pending_snoc] at h
    have hearlier : pending job tr = some (i, a) → (∀ k b, event ≠ parked k job b) →
        ∃ before after, tr ++ [event] = before ++ parked i job a :: after ∧ ∀ k b, parked k job b ∉ after := by
      intro hpending hother
      obtain ⟨before, after, rfl, hnone⟩ := ih hpending
      refine ⟨before, after ++ [event], by simp, ?_⟩
      intro k b hmem
      obtain hmem | hmem := List.mem_append.mp hmem
      · exact hnone k b hmem
      · exact hother k b (List.mem_singleton.mp hmem).symm
    cases event with
    | parked k job' b =>
      rw [applyTo] at h
      split at h
      · subst job'
        cases h
        exact ⟨tr, [], rfl, fun _ _ => List.not_mem_nil⟩
      · rename_i hjob
        refine hearlier h ?_
        intro k' b' heq
        cases heq
        exact hjob rfl
    | finished k => exact hearlier h (fun _ _ heq => by cases heq)
    | released k job' found =>
      rw [applyTo] at h
      split at h
      · cases h
      · exact hearlier h (fun _ _ heq => by cases heq)

theorem mem_of_pending (h : pending job tr = some (i, a)) : parked i job a ∈ tr := by
  obtain ⟨before, after, rfl, -⟩ := parked_of_pending h
  simp

/-- What a run acknowledges is pending for its job then. -/
theorem pending_of_follows (h : (released k job (some a)).Follows tr) : ∃ i, pending job tr = some (i, a) := by
  obtain ⟨⟨i, b⟩, hpending, hb⟩ := Option.map_eq_some_iff.mp h.2.2.symm
  dsimp only at hb
  subst hb
  exact ⟨i, hpending⟩

namespace Lawful

/-- A delivery parks once, and nobody else parks its handle. -/
theorem parked_unique (h : Lawful tr) (hi : parked i job a ∈ tr) (hk : parked k job' b ∈ tr) (hsame : i = k ∨ a = b) :
    i = k ∧ job = job' ∧ a = b := by
  induction tr using List.reverseRecOn with
  | nil => cases hi
  | append_singleton tr event ih =>
    obtain ⟨hbefore, hevent⟩ := lawful_snoc.mp h
    rw [List.mem_append, List.mem_singleton] at hi hk
    obtain hi | hi := hi
    · obtain hk | hk := hk
      · exact ih hbefore hi hk
      · rw [← hk] at hevent
        obtain ⟨hne, hne'⟩ := hevent i job a hi
        exact absurd hsame (by simp [hne, hne'])
    · obtain hk | hk := hk
      · rw [← hi] at hevent
        obtain ⟨hne, hne'⟩ := hevent k job' b hk
        exact absurd hsame (by simp [Ne.symm hne, Ne.symm hne'])
      · cases hi.trans hk.symm
        exact ⟨rfl, rfl, rfl⟩

theorem parked_of_acknowledged (h : Lawful tr) (hmem : released k job (some a) ∈ tr) : ∃ i, parked i job a ∈ tr := by
  obtain ⟨before, after, rfl⟩ := List.append_of_mem hmem
  obtain ⟨i, hpending⟩ := pending_of_follows (h before _ after rfl)
  exact ⟨i, List.mem_append_left _ (mem_of_pending hpending)⟩

/-- What has been acknowledged is not pending any more, for any job. -/
theorem not_pending (h : Lawful tr) (hmem : released k job' (some a) ∈ tr) : pending job tr ≠ some (i, a) := by
  induction tr using List.reverseRecOn with
  | nil => cases hmem
  | append_singleton tr event ih =>
    obtain ⟨hbefore, hevent⟩ := lawful_snoc.mp h
    rw [pending_snoc]
    rw [List.mem_append, List.mem_singleton] at hmem
    cases event with
    | finished j =>
      obtain hmem | hmem := hmem
      · exact ih hbefore hmem
      · cases hmem
    | parked j _ b =>
      obtain hmem | hmem := hmem
      · rw [applyTo]
        split
        · -- Such a handle has been parked before it was acknowledged, so this delivery has another one.
          rintro ⟨⟩
          obtain ⟨i', hparked⟩ := hbefore.parked_of_acknowledged hmem
          exact (hevent i' job' a hparked).2 rfl
        · exact ih hbefore hmem
      · cases hmem
    | released j _ found =>
      rw [applyTo]
      split
      · intro hnone
        cases hnone
      · rename_i hjob
        obtain hmem | hmem := hmem
        · exact ih hbefore hmem
        · cases hmem
          intro hpending
          obtain ⟨i', hpending'⟩ := pending_of_follows hevent
          exact hjob (hbefore.parked_unique (mem_of_pending hpending) (mem_of_pending hpending') (.inr rfl)).2.1

/-- No handle is acknowledged twice. -/
theorem acknowledged_once (h : Lawful tr) (a : Acknowledgement) : tr.countP (acknowledges a) ≤ 1 := by
  induction tr using List.reverseRecOn with
  | nil => exact Nat.zero_le _
  | append_singleton tr event ih =>
    obtain ⟨hbefore, hevent⟩ := lawful_snoc.mp h
    have hfew := ih hbefore
    rw [List.countP_append, List.countP_singleton]
    split
    · rename_i hack
      obtain ⟨k, job, rfl⟩ := acknowledges_iff.mp hack
      obtain ⟨i, hpending⟩ := pending_of_follows hevent
      have hnone : tr.countP (acknowledges a) = 0 := by
        rw [List.countP_eq_zero]
        intro e he hearlier
        obtain ⟨k', job', rfl⟩ := acknowledges_iff.mp hearlier
        exact hbefore.not_pending he hpending
      omega
    · omega

end Lawful

/-- A handle is acknowledged only after the body of the run of a delivery. -/
def AfterBody (tr : List HandleEvent) (i : Nat) (a : Acknowledgement) : Prop :=
  ∀ before k job after, tr = before ++ released k job (some a) :: after → finished i ∈ before

/-- A delivery parks for a job while another one has parked for it, whose run has yet to take what is parked. -/
def Overlap (tr : List HandleEvent) : Prop :=
  ∃ first middle last i k job a b found, i ≠ k ∧ parked k job b ∈ first ∧
    tr = first ++ parked i job a :: (middle ++ released k job found :: last)

namespace Lawful

/-- It depends on the runs that take a handle while it is pending. -/
theorem afterBody_iff (h : Lawful tr) (hparked : parked i job a ∈ tr) :
    AfterBody tr i a ↔ ∀ before k found after, tr = before ++ released k job found :: after →
      pending job before = some (i, a) → finished i ∈ before := by
  constructor
  · intro hafter before k found after hsplit hpending
    obtain ⟨-, -, hfound⟩ := h before _ after hsplit
    rw [hpending] at hfound
    rw [hfound] at hsplit
    exact hafter before k job after hsplit
  · intro hpending before k job' after hsplit
    obtain ⟨i', hheld⟩ := pending_of_follows (h before _ after hsplit)
    have hmem : parked i' job' a ∈ tr := by
      rw [hsplit]
      exact List.mem_append_left _ (mem_of_pending hheld)
    obtain ⟨rfl, rfl, -⟩ := h.parked_unique hmem hparked (.inr rfl)
    exact hpending before k _ after hsplit hheld

theorem afterBody (h : Lawful tr) (hturns : ¬ Overlap tr) (hparked : parked i job a ∈ tr) : AfterBody tr i a := by
  refine (h.afterBody_iff hparked).mpr ?_
  intro before k found after hsplit hpending
  obtain ⟨hfinished, ⟨b, hk⟩, -⟩ := h before _ after hsplit
  by_cases hik : i = k
  · rw [hik]
    exact hfinished
  · obtain ⟨first, middle, rfl, hnone⟩ := parked_of_pending hpending
    rw [List.mem_append, List.mem_cons] at hk
    obtain hk | hk | hk := hk
    · refine absurd ?_ hturns
      exact ⟨first, middle, after, i, k, job, a, b, found, hik, hk, by rw [hsplit]; simp⟩
    · cases hk
      exact absurd rfl hik
    · exact absurd hk (hnone k b)

end Lawful

end HandleEvent
end BatchExport
