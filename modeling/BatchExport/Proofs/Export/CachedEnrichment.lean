import BatchExport.Proofs.Export.DirectEnrichment
import BatchExport.Proofs.Export.Outcomes
import BatchExport.Proofs.Reference.Entries
import Mathlib.Data.List.Forall2

/-! Enrichment over a cache. Main statement: records that are processed one after the other over one cache come to what
each of them comes to alone, without it. -/
namespace BatchExport

/-- The same service, with the questions about ids noted beside its state. -/
def ReferenceLookup.noted {σ : Type} (service : ReferenceLookup σ) : ReferenceLookup (List ReferenceCall × σ) where
  byId kind id := (service.byId kind id).noting fun _ calls => calls ++ [(kind, id)]
  byQuery kind query := (service.byQuery kind query).noting fun _ calls => calls

theorem ReferenceLookup.run_noted {σ : Type} {service : ReferenceLookup σ} {kind : ReferenceKind} {id : String} {w w' : σ}
    {r : Except Failure Json} (h : (service.byId kind id).run w = some (r, w')) (calls : List ReferenceCall) :
    (service.noted.byId kind id).run (calls, w) = some (r, calls ++ [(kind, id)], w') := by
  unfold noted Effect.noting
  rw [Effect.run_ofRun]
  dsimp only
  rw [h]
  rfl

/-- Nothing is kept under an id but what the service answers about it. -/
def ReferenceCache.IsTrue (byId : ReferenceKind → String → Except Failure Json) (c : ReferenceCache) : Prop :=
  ∀ kind id entity, c.kept? ⟨.ids, kind, id⟩ = some entity → byId kind id = .ok entity

namespace ReferenceCache

variable {byId : ReferenceKind → String → Except Failure Json} {c : ReferenceCache}

theorem isTrue_new (defaultCapacity : Nat) (capacities : List (ReferenceKind × Nat)) (ttl : Option Nat) :
    (new defaultCapacity capacities ttl).IsTrue byId := by
  intro kind id entity h
  rw [kept?_new] at h
  cases h

theorem IsTrue.count (h : c.IsTrue byId) (found : Bool) : (c.count found).IsTrue byId := HoldsOnly.count h found

theorem IsTrue.storeId (h : c.IsTrue byId) {kind : ReferenceKind} {id : String} {entity : Json}
    (hanswer : byId kind id = .ok entity) : (c.storeId kind id entity).IsTrue byId := HoldsOnly.storeId h hanswer

/-- An entry may get lost. -/
theorem IsTrue.drop (h : c.IsTrue byId) (key : CacheKey) : (c.drop key).IsTrue byId := HoldsOnly.drop h key

end ReferenceCache

namespace Enrichment

variable {σ : Type} {service : ReferenceLookup σ} {byId : ReferenceKind → String → Except Failure Json}
  {id : String}

/-- A record is processed, with the calls for it alone. Before that, time and others may change the cache. -/
def attend (service : ReferenceLookup σ) (rules : List EnrichRule) (idField : String)
    (change : ReferenceCache → ReferenceCache) (record : Json) :
    Effect (ReferenceCache × σ) (Except Failure Json × List ReferenceCall) :=
  .ofRun fun (c, w) => ((process service.noted rules idField record).run (change c, [], w)).map
    fun (r, c, calls, w) => (.ok (r, calls), c, w)

section Runs

variable (hfixed : service.AnswersIds byId)
include hfixed

/-- Over a true cache a lookup answers as the service does, and calls it at least if there is no entity. -/
theorem resolveId_returns_answer (kind : ReferenceKind) (id : String) {c : ReferenceCache} (hc : c.IsTrue byId)
    (calls : List ReferenceCall) (w : σ) :
    (ReferenceCache.resolveId service.noted kind id).Returns (c, calls, w) fun r t =>
      r = byId kind id ∧ t.1.IsTrue byId ∧
        (t.2.1 = calls ++ [(kind, id)] ∨ t.2.1 = calls ∧ ∃ entity, byId kind id = .ok entity) := by
  have hprobe : (ReferenceCache.step (ReferenceCache.probeId kind id)).Returns (c, calls, w) fun r t =>
      r = .ok (c.kept? ⟨.ids, kind, id⟩) ∧ t.1.IsTrue byId ∧ t.2.1 = calls :=
    .ofChange ⟨rfl, hc.count _, rfl⟩
  refine .bind hprobe (fun found t ⟨hfound, ht, hcalls⟩ => ?_) fun f t h => nomatch h.1
  cases found with
  | some entity =>
    have hentity := hc kind id entity (Except.ok.inj hfound).symm
    exact .pure ⟨hentity.symm, ht, .inr ⟨hcalls, entity, hentity⟩⟩
  | none =>
    obtain ⟨w', hw⟩ := hfixed kind id t.2.2
    have hservice : (ReferenceCache.fromService (service.noted.byId kind id)).Returns t
        fun r t => r = byId kind id ∧ t.1.IsTrue byId ∧ t.2.1 = calls ++ [(kind, id)] := by
      exact .onPart ⟨byId kind id, (t.2.1 ++ [(kind, id)], w'), ReferenceLookup.run_noted hw t.2.1, rfl, ht,
        congrArg (· ++ [(kind, id)]) hcalls⟩
    refine .bind hservice (fun entity t ⟨hentity, ht, hcalls⟩ => ?_) fun f t ⟨hf, ht, hcalls⟩ => ?_
    · exact .ofChange ⟨hentity, ht.storeId hentity.symm, .inl hcalls⟩
    · exact ⟨hf, ht, .inl hcalls⟩

theorem applyRules_returns_direct (rules : List EnrichRule) (members : List (String × Json)) {c : ReferenceCache}
    (hc : c.IsTrue byId) (calls : List ReferenceCall) (w : σ) :
    (applyRules service.noted id rules members).Returns (c, calls, w) fun r t =>
      r = rules.foldlM (applyDirectly byId id) members ∧ t.1.IsTrue byId ∧
        ∃ asked, t.2.1 = calls ++ asked ∧ Asks byId (firings byId rules (members.lookup ·)) asked := by
  induction rules generalizing members c calls w with
  | nil => exact .pure ⟨rfl, hc, [], (List.append_nil calls).symm, .done⟩
  | cons rule rules ih =>
    rw [applyRules, List.foldlM_cons]
    cases hreference : reference? rule members with
    | none =>
      rw [firings_of_idle hreference, applyDirectly_of_idle hreference]
      exact ih members hc calls w
    | some reference =>
      have hresolve : ((ReferenceCache.resolveId service.noted rule.kind reference).mapFailure (blame id)).Returns
          (c, calls, w) fun r t => r = (byId rule.kind reference).mapError (blame id) ∧ t.1.IsTrue byId ∧
            (t.2.1 = calls ++ [(rule.kind, reference)] ∨
              t.2.1 = calls ∧ ∃ entity, byId rule.kind reference = .ok entity) := by
        refine .mapFailure ((resolveId_returns_answer hfixed rule.kind reference hc calls w).mono ?_)
        rintro r t ⟨hr, ht⟩
        exact ⟨congrArg _ hr, ht⟩
      cases hanswer : byId rule.kind reference with
      | ok entity =>
        rw [hanswer] at hresolve
        rw [firings_of_fires hreference hanswer, applyDirectly_of_fires hreference hanswer]
        refine .bind hresolve ?_ fun f t h => by cases h.1
        rintro entity' ⟨c', calls', w'⟩ ⟨hentity, ht, hcalls⟩
        obtain rfl := Except.ok.inj hentity
        refine (ih _ ht calls' w').mono ?_
        rintro r u ⟨hr, hu, asked, hasked, hasks⟩
        refine ⟨hr, hu, ?_⟩
        rcases hcalls with rfl | ⟨rfl, -⟩
        · exact ⟨_ :: asked, by rw [hasked, List.append_assoc]; rfl, .calls ⟨rule, reference⟩ hasks⟩
        · exact ⟨asked, hasked, .knows ⟨rule, reference⟩ ⟨_, hanswer⟩ hasks⟩
      | error f =>
        rw [hanswer] at hresolve
        rw [firings_of_refused hreference hanswer, applyDirectly_of_refused hreference hanswer]
        refine .bind hresolve (fun entity t h => by cases h.1) ?_
        rintro f' t ⟨hf, ht, hcalls⟩
        obtain rfl := Except.error.inj hf
        rcases hcalls with hcalls | ⟨-, entity, hentity⟩
        · exact ⟨rfl, ht, _, hcalls, .calls ⟨rule, reference⟩ .done⟩
        · cases hentity

theorem process_returns_direct (rules : List EnrichRule) (idField : String) (record : Json) {c : ReferenceCache}
    (hc : c.IsTrue byId) (w : σ) :
    (process service.noted rules idField record).Returns (c, [], w) fun r t =>
      r = direct byId rules idField record ∧ t.1.IsTrue byId ∧
        Asks byId (firings byId rules (record.get? ·)) t.2.1 := by
  have hthrow (hnone : (record.get? ·) = fun _ => none) :
      (throw (.partialFailure (recordId record idField) "record is not a JSON object") :
        Effect (ReferenceCache × List ReferenceCall × σ) Json).Returns (c, [], w) fun r t =>
        r = .error (.partialFailure (recordId record idField) "record is not a JSON object") ∧ t.1.IsTrue byId ∧
          Asks byId (firings byId rules (record.get? ·)) t.2.1 := by
    rw [hnone, firings_of_none]
    exact .throw ⟨rfl, hc, .done⟩
  cases rules with
  | nil => exact .pure ⟨rfl, hc, .done⟩
  | cons rule rules =>
    cases record with
    | object members =>
      refine .map ((applyRules_returns_direct hfixed (rule :: rules) members hc [] w).mono ?_)
      rintro r t ⟨rfl, ht, asked, hasked, hasks⟩
      rw [List.nil_append] at hasked
      exact ⟨rfl, ht, by rw [hasked]; exact hasks⟩
    | _ => exact hthrow rfl

/-- What a record comes to over a true cache it comes to alone. -/
theorem attend_returns_direct (rules : List EnrichRule) (idField : String) (change : ReferenceCache → ReferenceCache)
    (record : Json) {c : ReferenceCache} (hc : (change c).IsTrue byId) (w : σ) :
    (attend service rules idField change record).Returns (c, w) fun r t =>
      t.1.IsTrue byId ∧ ∃ calls, r = .ok (direct byId rules idField record, calls) ∧
        Asks byId (firings byId rules (record.get? ·)) calls := by
  obtain ⟨r, ⟨c', calls, w'⟩, hrun, rfl, hc', hasks⟩ := process_returns_direct hfixed rules idField record hc w
  refine ⟨_, (c', w'), ?_, hc', calls, rfl, hasks⟩
  rw [attend, Effect.run_ofRun]
  dsimp only
  rw [hrun]
  rfl

theorem attend_mapM_returns_direct (rules : List EnrichRule) (idField : String)
    (inputs : List ((ReferenceCache → ReferenceCache) × Json))
    (hchanges : ∀ input ∈ inputs, ∀ c, ReferenceCache.IsTrue byId c → (input.1 c).IsTrue byId)
    {c : ReferenceCache} (hc : c.IsTrue byId) (w : σ) :
    ∃ results t, (inputs.mapM fun (change, record) => attend service rules idField change record).run (c, w) =
        some (.ok results, t) ∧ t.1.IsTrue byId ∧
      List.Forall₂ (fun (_, record) (result, calls) => result = direct byId rules idField record ∧
        Asks byId (firings byId rules (record.get? ·)) calls) inputs results := by
  induction inputs generalizing c w with
  | nil => exact ⟨[], (c, w), rfl, hc, .nil⟩
  | cons input inputs ih =>
    obtain ⟨change, record⟩ := input
    have hchange := hchanges (change, record) List.mem_cons_self c hc
    obtain ⟨_, ⟨c', w'⟩, hfirst, hc', calls, rfl, hasks⟩ :=
      attend_returns_direct hfixed rules idField change record hchange w
    obtain ⟨results, t, hrest, ht, hresults⟩ := ih (fun input h => hchanges input (List.mem_cons_of_mem _ h)) hc' w'
    refine ⟨(direct byId rules idField record, calls) :: results, t, ?_, ht, .cons ⟨rfl, hasks⟩ hresults⟩
    rw [List.mapM_cons, Effect.run_bind, hfirst, Option.bind_some]
    dsimp only
    rw [Effect.run_bind, hrest]
    rfl

end Runs

/-- Records one after the other over one cache that is true to a service whose answers do not change, whatever else
becomes of the cache in between as long as it stays true. Each of them comes to what it comes to alone, and no rule
calls after one whose lookup fails. -/
theorem enrichment_over_cache_is_direct (hfixed : service.AnswersIds byId) (rules : List EnrichRule) (idField : String)
    {c : ReferenceCache} (hc : c.IsTrue byId) (w : σ) (inputs : List ((ReferenceCache → ReferenceCache) × Json))
    (hchanges : ∀ input ∈ inputs, ∀ c, ReferenceCache.IsTrue byId c → (input.1 c).IsTrue byId) :
    (∃ results t, (inputs.mapM fun (change, record) => attend service rules idField change record).run (c, w) =
        some (.ok results, t) ∧ t.1.IsTrue byId ∧
      List.Forall₂ (fun (_, record) (result, calls) => result = direct byId rules idField record ∧
        Asks byId (firings byId rules (record.get? ·)) calls) inputs results) ∧
    ∀ record, (rules = [] → direct byId rules idField record = .ok record) ∧
      (rules ≠ [] → record.members? = none → direct byId rules idField record =
        .error (.partialFailure (recordId record idField) "record is not a JSON object")) ∧
      ∀ members, record = .object members → ∃ r, direct byId rules idField record = r.map .object ∧
        ComesTo byId (recordId record idField) members (firings byId rules (members.lookup ·)) r := by
  refine ⟨attend_mapM_returns_direct hfixed rules idField inputs hchanges hc w, fun record => ⟨?_, ?_, ?_⟩⟩
  · rintro rfl
    rfl
  · exact fun hrules => direct_of_not_object hrules
  · rintro members rfl
    exact ⟨_, direct_object rules idField members, comesTo_foldlM rules members⟩

end Enrichment

namespace OverwrittenId

def byId : ReferenceKind → String → Except Failure Json
  | .user, "u1" => .ok (.object [("username", .string "l1")])
  | .location, "l1" => .ok (.object [("code", .string "x")])
  | _, "down" => .error (.remoteUnavailable (.timeout "30s"))
  | kind, id => .error (.notFound kind.label id)

/-- The service counts the questions. -/
def service : ReferenceLookup Nat where
  byId kind id := .ofStep fun n => (byId kind id, n + 1)
  byQuery kind name := throw (.notFound kind.label name)

/-- The first rule overwrites the id of the record, which the second one reads. -/
def rules : List EnrichRule := [⟨"userId", .user, "id"⟩, ⟨"id", .location, "place"⟩]

def record (id userId : String) : Json := .object [("id", .string id), ("userId", .string userId)]

/-- Before the last record an entry gets lost. -/
def inputs : List ((ReferenceCache → ReferenceCache) × Json) := [(id, record "r1" "u1"), (id, record "r2" "u2"),
  (id, record "r3" "down"), (ReferenceCache.drop ⟨.ids, .user, "u1"⟩, record "r4" "u1")]

theorem enriched_as_alone : service.AnswersIds byId ∧ (ReferenceCache.new 1 [] none).IsTrue byId ∧
    (∀ input ∈ inputs, ∀ c, ReferenceCache.IsTrue byId c → (input.1 c).IsTrue byId) ∧
    ∃ results t, (inputs.mapM fun (change, record) => Enrichment.attend service rules "id" change record).run
        (.new 1 [] none, 0) = some (.ok results, t) ∧
      results.map (·.1) = [
        .ok (.object [("id", .string "l1"), ("place", .null), ("userId", .string "u1")]),
        .error (.partialFailure "r2" "User not found: u2"), .error (.remoteUnavailable (.timeout "30s")),
        .ok (.object [("id", .string "l1"), ("place", .null), ("userId", .string "u1")])] := by
  have hfixed : service.AnswersIds byId := fun kind id n => ⟨n + 1, rfl⟩
  have hnew : (ReferenceCache.new 1 [] none).IsTrue byId := ReferenceCache.isTrue_new 1 [] none
  have hchanges : ∀ input ∈ inputs, ∀ c, ReferenceCache.IsTrue byId c → (input.1 c).IsTrue byId := by
    simp only [inputs, List.forall_mem_cons, List.not_mem_nil, false_implies, implies_true, and_true]
    exact ⟨fun _ h => h, fun _ h => h, fun _ h => h, fun _ h => h.drop _⟩
  obtain ⟨⟨results, t, hrun, -, hresults⟩, -⟩ :=
    Enrichment.enrichment_over_cache_is_direct hfixed rules "id" hnew 0 inputs hchanges
  refine ⟨hfixed, hnew, hchanges, results, t, hrun, ?_⟩
  have hmap : (inputs.map fun input => Enrichment.direct byId rules "id" input.2) = results.map (·.1) := by
    rw [← List.forall₂_eq_eq_eq, List.forall₂_map_left_iff, List.forall₂_map_right_iff]
    exact hresults.imp fun _ _ h => h.1.symm
  rw [← hmap]
  rfl

end OverwrittenId
end BatchExport
