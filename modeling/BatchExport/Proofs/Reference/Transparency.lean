import BatchExport.Proofs.Reference.Lookups

/-! Lookups over a service whose answers do not change. Main statement: they answer as the service does, whatever is
kept, dropped or forgotten meanwhile. -/
namespace BatchExport

/-- The service always answers, and the same whenever it is asked. -/
structure ReferenceLookup.Answers {σ : Type} (service : ReferenceLookup σ)
    (byId : ReferenceKind → String → Except Failure Json)
    (byQuery : ReferenceKind → String → Except Failure (List Json)) : Prop where
  byId : ∀ kind id w, ∃ w', (service.byId kind id).run w = some (byId kind id, w')
  byQuery : ∀ kind query w, ∃ w', (service.byQuery kind query).run w = some (byQuery kind query, w')

/-- The first of the entities that a name stands for. -/
def ReferenceCache.firstOf (kind : ReferenceKind) (name : String) : Except Failure (List Json) → Except Failure Json
  | .ok (entity :: _) => .ok entity
  | .ok [] => .error (.notFound kind.label name)
  | .error f => .error f

theorem ReferenceCache.run_resolveName {σ : Type} (service : ReferenceLookup σ) (kind : ReferenceKind) (name : String)
    (s : ReferenceCache × σ) : (resolveName service kind name).run s =
      ((resolveAll service kind name).run s).map fun (r, s) => (firstOf kind name r, s) := by
  rw [resolveName, Effect.run_bind]
  cases (resolveAll service kind name).run s with
  | none => rfl
  | some outcome =>
    obtain ⟨r, s'⟩ := outcome
    cases r with
    | error f => rfl
    | ok entities => cases entities <;> rfl

section Fixed

variable {σ : Type} {service : ReferenceLookup σ} {byId : ReferenceKind → String → Except Failure Json}
  {byQuery : ReferenceKind → String → Except Failure (List Json)} {keys : List CacheKey} {x x' : LookupPool}

/-- What a lookup of the key comes to without a cache. -/
def CacheKey.answer (byId : ReferenceKind → String → Except Failure Json)
    (byQuery : ReferenceKind → String → Except Failure (List Json)) : (key : CacheKey) → Except Failure key.table.Value
  | ⟨.ids, kind, id⟩ => byId kind id
  | ⟨.names, kind, name⟩ => (byQuery kind (kind.exactMatchQuery name)).bind (accept ⟨.names, kind, name⟩)

theorem CacheKey.answer_of_ask (hfixed : service.Answers byId byQuery) (key : CacheKey) (w : σ) :
    ∃ answer w', (key.ask service).run w = some (answer, w') ∧ answer.bind key.accept = key.answer byId byQuery := by
  obtain ⟨table, kind, text⟩ := key
  cases table with
  | ids =>
    obtain ⟨w', hcall⟩ := hfixed.byId kind text w
    refine ⟨_, w', hcall, ?_⟩
    rw [answer]
    cases byId kind text <;> rfl
  | names =>
    obtain ⟨w', hcall⟩ := hfixed.byQuery kind (kind.exactMatchQuery text) w
    exact ⟨_, w', hcall, rfl⟩

/-- What the phase of a lookup says about the answer that it comes to. -/
private def LookupPhase.Fits {α : Type} (answer : Except Failure α) : LookupPhase α → Prop
  | .probing | .asking => True
  | .keeping a => answer = .ok a
  | .ended result => answer = result

/-- Every entry holds the answer for its own key, and every lookup is on its way to it. -/
private structure LookupPool.IsTrue (byId : ReferenceKind → String → Except Failure Json)
    (byQuery : ReferenceKind → String → Except Failure (List Json)) (x : LookupPool) : Prop where
  entries : ∀ key a, x.cache.kept? key = some a → key.answer byId byQuery = .ok a
  lookups : ∀ l ∈ x.lookups, l.phase.Fits (l.key.answer byId byQuery)

private theorem LookupPool.IsTrue.play {m : LookupMove σ} {evs : List LookupEvent}
    (hfixed : service.Answers byId byQuery) (h : x.IsTrue byId byQuery) (hplay : x.play? service m = some (evs, x')) :
    x'.IsTrue byId byQuery := by
  cases play_change hplay with
  | forget table kind cache lookups =>
    refine ⟨fun key a ha => ?_, by rw [lookups]; exact h.lookups⟩
    rw [cache, ReferenceCache.kept?_forget] at ha
    split at ha
    · cases ha
    · exact h.entries key a ha
  | drop dropped cache lookups =>
    refine ⟨fun key a ha => ?_, by rw [lookups]; exact h.lookups⟩
    rw [cache, ReferenceCache.kept?_drop] at ha
    split at ha
    · cases ha
    · exact h.entries key a ha
  | step i w l l' event there step lookups =>
    have hl := h.lookups l (List.mem_of_getElem? there)
    have hset (hfits : l'.phase.Fits (l'.key.answer byId byQuery)) :
        ∀ q ∈ x'.lookups, q.phase.Fits (q.key.answer byId byQuery) := by
      intro q hq
      rw [lookups] at hq
      obtain hq | rfl := List.mem_or_eq_of_mem_set hq
      · exact h.lookups q hq
      · exact hfits
    cases Lookup.step_change step with
    | hits a before found after cache =>
      refine ⟨fun key b hb => ?_, hset (by rw [after]; exact h.entries l.key a found)⟩
      rw [cache, ReferenceCache.kept?_count] at hb
      exact h.entries key b hb
    | misses before found after cache =>
      refine ⟨fun key b hb => ?_, hset (by rw [after]; trivial)⟩
      rw [cache, ReferenceCache.kept?_count] at hb
      exact h.entries key b hb
    | asks answer w' before call after cache =>
      refine ⟨fun key b hb => h.entries key b (by rw [← cache, hb]), hset ?_⟩
      obtain ⟨answer', w'', hcall, haccepted⟩ := l.key.answer_of_ask hfixed w
      cases call.symm.trans hcall
      rw [after]
      dsimp only
      rw [haccepted]
      cases l.key.answer byId byQuery <;> exact rfl
    | keeps a before after cache =>
      rw [before] at hl
      refine ⟨fun key b hb => ?_, hset (by rw [after]; exact hl)⟩
      rw [cache] at hb
      by_cases hkey : key = l.key
      · subst hkey
        rw [ReferenceCache.kept?_keep_self hb]
        exact hl
      · exact h.entries key b (ReferenceCache.kept?_of_keep hkey hb)

/-- A lookup that has not ended can always go on. -/
private theorem LookupPool.play?_isSome (hfixed : service.Answers byId byQuery) {i : Nat} {l : Lookup}
    (hl : x.lookups[i]? = some l) (hended : ∀ result, l.phase ≠ .ended result) (w : σ) :
    (x.play? service (.step i w)).isSome = true := by
  rw [play?, hl, Option.bind_some, Option.isSome_map]
  obtain ⟨key, phase⟩ := l
  cases phase with
  | probing =>
    rw [Lookup.step?, ReferenceCache.probe_eq]
    cases x.cache.kept? key <;> rfl
  | asking =>
    obtain ⟨answer, w', hcall, -⟩ := key.answer_of_ask hfixed w
    rw [Lookup.step?, hcall]
    rfl
  | keeping a => rfl
  | ended result => exact absurd rfl (hended result)

/-- Lookups begin at any time, and the steps of them, invalidations and drops come in any order. Each lookup has at most
three steps, can make the next one until it has ended, and ends with what the service would have answered: by id with
the entity or the failure, by name with all entities, of which there must be one, or with the first of them. -/
theorem LookupPool.answers_as_service (hfixed : service.Answers byId byQuery) {defaultCapacity : Nat}
    {capacities : List (ReferenceKind × Nat)} {ttl : Option Nat} {moves : List (LookupMove σ)} {log : List LookupEvent}
    (hplay : story? (play? service) (opened (.new defaultCapacity capacities ttl) keys) moves = some (log, x')) :
    (∀ i kind id, keys[i]? = some ⟨.ids, kind, id⟩ → ∃ phase, x'.lookups[i]? = some ⟨⟨.ids, kind, id⟩, phase⟩ ∧
      (∀ result, phase = .ended result → result = byId kind id) ∧
      ((∃ result, phase = .ended result) ∨ ∀ w, (x'.play? service (.step i w)).isSome)) ∧
    (∀ i kind name, keys[i]? = some ⟨.names, kind, name⟩ → ∃ phase, x'.lookups[i]? = some ⟨⟨.names, kind, name⟩, phase⟩ ∧
      (∀ result, phase = .ended result →
        (result = match byQuery kind (kind.exactMatchQuery name) with
          | .ok [] => .error (.notFound kind.label name)
          | answer => answer) ∧
        (ReferenceCache.firstOf kind name result = match byQuery kind (kind.exactMatchQuery name) with
          | .ok [] => .error (.notFound kind.label name)
          | .ok (entity :: _) => .ok entity
          | .error f => .error f)) ∧
      ((∃ result, phase = .ended result) ∨ ∀ w, (x'.play? service (.step i w)).isSome)) ∧
    ∀ i < keys.length, moves.countP (·.isStepOf i) ≤ 3 := by
  have hopen : (opened (.new defaultCapacity capacities ttl) keys).IsTrue byId byQuery := by
    refine ⟨fun key a ha => ?_, fun l hl => ?_⟩
    · rw [opened, ReferenceCache.kept?_new] at ha
      cases ha
    · obtain ⟨key, -, rfl⟩ := List.mem_map.mp hl
      trivial
  have htrue : x'.IsTrue byId byQuery := story_preserves (fun _ _ _ _ h hstep => h.play hfixed hstep) hopen hplay
  -- Where a lookup stands, what it has come to, and what it can do.
  have hlookup (i : Nat) (key : CacheKey) (hi : keys[i]? = some key) : ∃ phase, x'.lookups[i]? = some ⟨key, phase⟩ ∧
      phase.Fits (key.answer byId byQuery) ∧
      ((∃ result, phase = .ended result) ∨ ∀ w, (x'.play? service (.step i w)).isSome) := by
    obtain ⟨⟨key', phase⟩, hl, hkey, -⟩ := story_left (opened_getElem? _ hi) hplay
    cases hkey
    refine ⟨phase, hl, htrue.lookups _ (List.mem_of_getElem? hl), ?_⟩
    by_cases hended : ∃ result, phase = .ended result
    · exact .inl hended
    · exact .inr (play?_isSome hfixed hl (not_exists.mp hended))
  refine ⟨fun i kind id hi => ?_, fun i kind name hi => ?_, fun i hi => ?_⟩
  · obtain ⟨phase, hl, hfits, hgoes⟩ := hlookup i _ hi
    refine ⟨phase, hl, ?_, hgoes⟩
    rintro result rfl
    exact hfits.symm
  · obtain ⟨phase, hl, hfits, hgoes⟩ := hlookup i _ hi
    refine ⟨phase, hl, ?_, hgoes⟩
    rintro result rfl
    have hresult : result = (byQuery kind (kind.exactMatchQuery name)).bind (CacheKey.accept ⟨.names, kind, name⟩) :=
      hfits.symm
    rw [hresult]
    rcases byQuery kind (kind.exactMatchQuery name) with f | (_ | ⟨entity, rest⟩) <;> exact ⟨rfl, rfl⟩
  · obtain ⟨l, -, -, hleft⟩ := story_left (opened_getElem? _ (List.getElem?_eq_getElem hi)) hplay
    exact Nat.le_trans (Nat.le_add_left _ _) hleft

end Fixed

namespace TwoBooks

/-- There is one entity with an id, and two that share a name. -/
def byId (kind : ReferenceKind) (id : String) : Except Failure Json :=
  if id = "1" then .ok (.string "book") else .error (.notFound kind.label id)

def byQuery (_ : ReferenceKind) (query : String) : Except Failure (List Json) :=
  if query = "name==\"book\"" then .ok [.string "book", .string "old book"] else .ok []

def service : ReferenceLookup Unit where
  byId kind id := .ofStep fun w => (byId kind id, w)
  byQuery kind query := .ofStep fun w => (byQuery kind query, w)

/-- Two lookups of the id, and one each of the name, of another id and of another name. -/
def keys : List CacheKey := [⟨.ids, .materialType, "1"⟩, ⟨.ids, .materialType, "1"⟩, ⟨.names, .materialType, "book"⟩,
  ⟨.ids, .user, "2"⟩, ⟨.names, .user, "nobody"⟩]

/-- The first two overlap, and what the first has kept is dropped. -/
def moves : List (LookupMove Unit) :=
  [.step 0 (), .step 1 (), .step 0 (), .step 0 (), .drop ⟨.ids, .materialType, "1"⟩, .step 1 (), .forget .names .user,
    .step 2 (), .step 1 (), .step 3 (), .step 4 (), .step 2 (), .step 3 (), .step 4 (), .step 2 ()]

theorem service_answers : service.Answers byId byQuery where
  byId _ _ w := ⟨w, rfl⟩
  byQuery _ _ w := ⟨w, rfl⟩

private theorem eq_ended_of_left {α : Type} {phase : LookupPhase α} (h : phase.left = 0) :
    ∃ result, phase = .ended result := by
  cases phase with
  | ended result => exact ⟨result, rfl⟩
  | _ => cases h

/-- All of them end as without a cache. -/
theorem found_as_in_service : ∃ log x,
    story? (LookupPool.play? service) (.opened (.new 1 [] (some 5)) keys) moves = some (log, x) ∧
      x.lookups[1]? = some ⟨⟨.ids, .materialType, "1"⟩, .ended (.ok (.string "book"))⟩ ∧
      x.lookups[2]? = some ⟨⟨.names, .materialType, "book"⟩, .ended (.ok [.string "book", .string "old book"])⟩ ∧
      x.lookups[4]? = some ⟨⟨.names, .user, "nobody"⟩, .ended (.error (.notFound "User" "nobody"))⟩ := by
  have hplayed : (story? (LookupPool.play? service) (.opened (.new 1 [] (some 5)) keys) moves).map
      (fun (_, x) => x.lookups.map fun l => l.phase.left) = some [0, 0, 0, 0, 0] := by decide
  obtain ⟨⟨log, x⟩, hplay, hleft⟩ := Option.map_eq_some_iff.mp hplayed
  dsimp only at hleft
  obtain ⟨hids, hnames, -⟩ := LookupPool.answers_as_service service_answers hplay
  have hended {i : Nat} {key : CacheKey} {phase : LookupPhase key.table.Value} (hl : x.lookups[i]? = some ⟨key, phase⟩) :
      ∃ result, phase = .ended result := by
    refine eq_ended_of_left ?_
    have hmem : phase.left ∈ x.lookups.map fun l => l.phase.left :=
      List.mem_map.mpr ⟨_, List.mem_of_getElem? hl, rfl⟩
    rw [hleft] at hmem
    simpa using hmem
  refine ⟨log, x, hplay, ?_, ?_, ?_⟩
  · obtain ⟨phase, hl, hresult, -⟩ := hids 1 .materialType "1" rfl
    obtain ⟨result, rfl⟩ := hended hl
    rw [hl, hresult result rfl]
    rfl
  · obtain ⟨phase, hl, hresult, -⟩ := hnames 2 .materialType "book" rfl
    obtain ⟨result, rfl⟩ := hended hl
    rw [hl, (hresult result rfl).1]
    rfl
  · obtain ⟨phase, hl, hresult, -⟩ := hnames 4 .user "nobody" rfl
    obtain ⟨result, rfl⟩ := hended hl
    rw [hl, (hresult result rfl).1]
    rfl

end TwoBooks
end BatchExport
