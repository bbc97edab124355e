import BatchExport.Enrichment
import BatchExport.Proofs.Job.FlowLog

/-! Records against a service whose answers do not change. Main statement: what becomes of records one after the other is
settled by the cache at the start. -/
namespace BatchExport

/-- Such a service always answers, and the same whenever it is asked. -/
def ReferenceLookup.AnswersIds {σ : Type} (service : ReferenceLookup σ)
    (byId : ReferenceKind → String → Except Failure Json) : Prop :=
  ∀ kind id w, ∃ w', (service.byId kind id).run w = some (byId kind id, w')

/-- The answers as a service of their own. -/
def ReferenceLookup.ofAnswers (byId : ReferenceKind → String → Except Failure Json) : ReferenceLookup Unit where
  byId kind id := .ofStep fun w => (byId kind id, w)
  byQuery kind name := throw (.notFound kind.label name)

namespace Enrichment

variable {σ : Type} {lookup : ReferenceLookup σ} {byId : ReferenceKind → String → Except Failure Json}
  {rules : List EnrichRule} {idField : String}

section Fixed

variable (hfixed : lookup.AnswersIds byId)
include hfixed

private theorem resolveId_erases (kind : ReferenceKind) (id : String) :
    (ReferenceCache.resolveId lookup kind id).Erases (fun s : ReferenceCache × σ => (s.1, ()))
      (ReferenceCache.resolveId (.ofAnswers byId) kind id) := by
  have hstep {α : Type} (f : ReferenceCache → α × ReferenceCache) :
      (ReferenceCache.step f).Erases (fun s : ReferenceCache × σ => (s.1, ())) (ReferenceCache.step f) := fun _ => rfl
  have hservice : (ReferenceCache.fromService (lookup.byId kind id)).Erases (fun s : ReferenceCache × σ => (s.1, ()))
      (ReferenceCache.fromService ((ReferenceLookup.ofAnswers byId).byId kind id)) := by
    rintro ⟨c, w⟩
    obtain ⟨w', hw⟩ := hfixed kind id w
    unfold ReferenceCache.fromService Effect.onPart
    rw [Effect.run_ofRun, Effect.run_ofRun, hw]
    rfl
  refine .bind (hstep _) fun found => ?_
  cases found with
  | some entity => exact .pure entity
  | none => exact .bind hservice fun _ => hstep _

/-- The service matters by its answers only. -/
theorem process_erases (record : Json) :
    (process lookup rules idField record).Erases (fun s : ReferenceCache × σ => (s.1, ()))
      (process (.ofAnswers byId) rules idField record) := by
  have hrules (id : String) (members : List (String × Json)) :
      (applyRules lookup id rules members).Erases (fun s : ReferenceCache × σ => (s.1, ()))
        (applyRules (.ofAnswers byId) id rules members) := by
    induction rules generalizing members with
    | nil => exact .pure members
    | cons rule rules ih =>
      rw [applyRules, applyRules]
      split
      · exact ih members
      · exact .bind (resolveId_erases hfixed _ _).mapFailure fun _ => ih _
  rw [process, process]
  split
  · exact .pure record
  · dsimp only
    split
    · exact .map (hrules _ _)
    · exact .throw _

variable (hfound : ∀ kind id f, byId kind id = .error f → f.isNotFound = true)
include hfound

private theorem resolveId_returns (kind : ReferenceKind) (id : String) (s : ReferenceCache × σ) :
    (ReferenceCache.resolveId lookup kind id).Returns s fun r _ => ∀ f, r = .error f → f.isNotFound = true := by
  have hservice (t : ReferenceCache × σ) : (ReferenceCache.fromService (lookup.byId kind id)).Returns t
      fun r _ => ∀ f, r = .error f → f.isNotFound = true := by
    obtain ⟨w', hw⟩ := hfixed kind id t.2
    exact .onPart ⟨_, w', hw, hfound kind id⟩
  have hprobe : (ReferenceCache.step (ReferenceCache.probeId kind id)).Returns s fun r _ => ∃ found, r = .ok found :=
    .ofChange ⟨_, rfl⟩
  refine .bind hprobe (fun found t _ => ?_) fun f t h => nomatch h
  cases found with
  | some entity => exact .pure fun _ h => nomatch h
  | none =>
    refine .bind (hservice t) (fun entity t _ => .ofChange fun _ h => nomatch h) fun f t h f' hf' => ?_
    cases hf'
    exact h f rfl

/-- A record is processed to its end; if the service fails only where it finds nothing, the failure is one of the
record alone. -/
theorem process_returns (record : Json) (s : ReferenceCache × σ) :
    (process lookup rules idField record).Returns s fun r _ => ∀ f, r = .error f → f.isSkippable = true := by
  have hresolve (kind : ReferenceKind) (reference id : String) (s : ReferenceCache × σ) :
      ((ReferenceCache.resolveId lookup kind reference).mapFailure (blame id)).Returns s
        fun r _ => ∀ f, r = .error f → f.isSkippable = true := by
    refine .mapFailure ((resolveId_returns hfixed hfound kind reference s).mono fun r t h f hf => ?_)
    cases r with
    | ok entity => cases hf
    | error cause =>
      cases hf
      rw [blame, if_pos (h cause rfl)]
      rfl
  have hrules (id : String) (members : List (String × Json)) (s : ReferenceCache × σ) :
      (applyRules lookup id rules members).Returns s fun r _ => ∀ f, r = .error f → f.isSkippable = true := by
    induction rules generalizing members s with
    | nil => exact .pure fun _ h => nomatch h
    | cons rule rules ih =>
      rw [applyRules]
      split
      · exact ih members s
      · refine .bind (hresolve _ _ id s) (fun entity t _ => ih _ t) fun f t h f' hf' => ?_
        cases hf'
        exact h f rfl
  rw [process]
  split
  · exact .pure fun _ h => nomatch h
  · dsimp only
    split
    · refine .map ((hrules _ _ s).mono fun r t h f hf => ?_)
      cases r with
      | ok members => cases hf
      | error cause =>
        cases hf
        exact h f rfl
    · refine .throw fun f hf => ?_
      cases hf
      rfl

end Fixed

/-- What becomes of records one after the other, and of the cache meanwhile. -/
inductive Outcomes (byId : ReferenceKind → String → Except Failure Json) (rules : List EnrichRule) (idField : String)
    (start : ReferenceCache) : List (Json × Except Failure (Option Json)) → ReferenceCache → Prop
  | nil : Outcomes byId rules idField start [] start
  | snoc {processed : List (Json × Except Failure (Option Json))} {c c' : ReferenceCache} {record : Json}
      {r : Except Failure Json} (before : Outcomes byId rules idField start processed c)
      (now : (process (.ofAnswers byId) rules idField record).run (c, ()) = some (r, c', ())) :
      Outcomes byId rules idField start (processed ++ [(record, r.map some)]) c'

theorem Outcomes.unique {start c c' : ReferenceCache} {processed processed' : List (Json × Except Failure (Option Json))}
    (h : Outcomes byId rules idField start processed c) (h' : Outcomes byId rules idField start processed' c')
    (hsame : processed.map (·.1) = processed'.map (·.1)) : processed = processed' ∧ c = c' := by
  induction h generalizing processed' c' with
  | nil =>
    cases h' with
    | nil => exact ⟨rfl, rfl⟩
    | snoc before now => simp at hsame
  | snoc before now ih =>
    cases h' with
    | nil => simp at hsame
    | snoc before' now' =>
      rw [List.map_append, List.map_append] at hsame
      obtain ⟨hearlier, hlast⟩ := List.append_inj' hsame rfl
      obtain ⟨rfl, rfl⟩ := ih before' hearlier
      obtain rfl := List.singleton_inj.mp hlast
      cases now.symm.trans now'
      exact ⟨rfl, rfl⟩

end Enrichment
end BatchExport
