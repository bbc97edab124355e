import BatchExport.Proofs.Effect
import BatchExport.Proofs.Reference.Entries
import BatchExport.Proofs.Story

/-! Lookups over one cache, whose atomic steps happen in any order: the probe, the call of the service and the insert.
Main statements: a lookup by itself, and lookups of one id together, are stories of them. -/
namespace BatchExport

namespace CacheKey

variable {σ : Type}

/-- The call that follows a miss. -/
def ask (service : ReferenceLookup σ) : (key : CacheKey) → Effect σ key.table.Value
  | ⟨.ids, kind, id⟩ => service.byId kind id
  | ⟨.names, kind, name⟩ => service.byQuery kind (kind.exactMatchQuery name)

/-- A name that nothing matches is a failure. -/
def accept : (key : CacheKey) → key.table.Value → Except Failure key.table.Value
  | ⟨.ids, _, _⟩, entity => .ok entity
  | ⟨.names, kind, name⟩, entities => if entities.isEmpty then .error (.notFound kind.label name) else .ok entities

/-- The lookup in one piece. -/
def resolve (service : ReferenceLookup σ) : (key : CacheKey) → Effect (ReferenceCache × σ) key.table.Value
  | ⟨.ids, kind, id⟩ => ReferenceCache.resolveId service kind id
  | ⟨.names, kind, name⟩ => ReferenceCache.resolveAll service kind name

end CacheKey

/-- What is left to do. -/
inductive LookupPhase (α : Type) where
  | probing
  | asking
  | keeping (a : α)
  | ended (result : Except Failure α)

/-- What follows an answer of the service. -/
def LookupPhase.ofAnswer {α : Type} : Except Failure α → LookupPhase α
  | .ok a => .keeping a
  | .error f => .ended (.error f)

structure Lookup where
  key : CacheKey
  phase : LookupPhase key.table.Value := .probing

/-- What happens to a cache and its lookups, which are known by their position. -/
inductive LookupEvent where
  | hit (i : Nat) (key : CacheKey) (a : key.table.Value)
  | missed (i : Nat) (key : CacheKey)
  /-- A call of the service, and what it answers. -/
  | asked (i : Nat) (key : CacheKey) (answer : Except Failure key.table.Value)
  | kept (i : Nat) (key : CacheKey) (a : key.table.Value)
  | forgotten (table : CacheTable) (kind : ReferenceKind)

/-- One atomic step; the service is in the given state. -/
def Lookup.step? {σ : Type} (service : ReferenceLookup σ) (i : Nat) (l : Lookup) (c : ReferenceCache) (w : σ) :
    Option (LookupEvent × Lookup × ReferenceCache) :=
  match l.phase with
  | .probing =>
    match c.probe l.key with
    | (some a, c) => some (.hit i l.key a, ⟨l.key, .ended (.ok a)⟩, c)
    | (none, c) => some (.missed i l.key, ⟨l.key, .asking⟩, c)
  | .asking =>
    ((l.key.ask service).run w).map fun (answer, _) =>
      (.asked i l.key answer, ⟨l.key, .ofAnswer (answer.bind l.key.accept)⟩, c)
  | .keeping a => some (.kept i l.key a, ⟨l.key, .ended (.ok a)⟩, c.keep l.key a)
  | .ended _ => none

inductive LookupMove (σ : Type) where
  /-- A lookup goes on, while the service is in some state. -/
  | step (i : Nat) (service : σ)
  /-- An invalidation is two of these, one for each table. -/
  | forget (table : CacheTable) (kind : ReferenceKind)
  | drop (key : CacheKey)

structure LookupPool where
  cache : ReferenceCache
  lookups : List Lookup

namespace LookupPool

variable {σ : Type}

/-- Lookups that have not begun yet. -/
def opened (cache : ReferenceCache) (keys : List CacheKey) : LookupPool := ⟨cache, keys.map fun key => ⟨key, .probing⟩⟩

/-- No answer if the move cannot be made now. -/
def play? (service : ReferenceLookup σ) (x : LookupPool) : LookupMove σ → Option (List LookupEvent × LookupPool)
  | .step i w =>
    x.lookups[i]?.bind fun l => (l.step? service i x.cache w).map fun (event, l, cache) =>
      ([event], { cache, lookups := x.lookups.set i l })
  | .forget table kind => some ([.forgotten table kind], { x with cache := x.cache.forget table kind })
  | .drop key => some ([], { x with cache := x.cache.drop key })

end LookupPool

section Steps

variable {σ : Type} {service : ReferenceLookup σ}

/-- What a step of a lookup can be. -/
inductive Lookup.Change (service : ReferenceLookup σ) (i : Nat) (l l' : Lookup) (c c' : ReferenceCache) (w : σ) :
    LookupEvent → Prop
  | hits (a : l.key.table.Value) (before : l.phase = .probing) (found : c.kept? l.key = some a)
      (after : l' = ⟨l.key, .ended (.ok a)⟩) (cache : c' = c.count true) : Change service i l l' c c' w (.hit i l.key a)
  | misses (before : l.phase = .probing) (found : c.kept? l.key = none) (after : l' = ⟨l.key, .asking⟩)
      (cache : c' = c.count false) : Change service i l l' c c' w (.missed i l.key)
  | asks (answer : Except Failure l.key.table.Value) (w' : σ) (before : l.phase = .asking)
      (call : (l.key.ask service).run w = some (answer, w'))
      (after : l' = ⟨l.key, .ofAnswer (answer.bind l.key.accept)⟩) (cache : c' = c) :
      Change service i l l' c c' w (.asked i l.key answer)
  | keeps (a : l.key.table.Value) (before : l.phase = .keeping a) (after : l' = ⟨l.key, .ended (.ok a)⟩)
      (cache : c' = c.keep l.key a) : Change service i l l' c c' w (.kept i l.key a)

theorem Lookup.step_change {i : Nat} {l l' : Lookup} {c c' : ReferenceCache} {w : σ} {event : LookupEvent}
    (h : l.step? service i c w = some (event, l', c')) : Change service i l l' c c' w event := by
  obtain ⟨key, phase⟩ := l
  cases phase with
  | probing =>
    rw [step?, ReferenceCache.probe_eq] at h
    cases hfound : c.kept? key with
    | some a =>
      rw [hfound] at h
      cases h
      exact .hits (l := ⟨key, .probing⟩) a rfl hfound rfl rfl
    | none =>
      rw [hfound] at h
      cases h
      exact .misses (l := ⟨key, .probing⟩) rfl hfound rfl rfl
  | asking =>
    obtain ⟨⟨answer, w'⟩, hcall, heq⟩ := Option.map_eq_some_iff.mp h
    cases heq
    exact .asks (l := ⟨key, .asking⟩) answer w' rfl hcall rfl rfl
  | keeping a =>
    cases h
    exact .keeps (l := ⟨key, .keeping a⟩) a rfl rfl rfl
  | ended result => cases h

theorem Lookup.Change.key_eq {i : Nat} {l l' : Lookup} {c c' : ReferenceCache} {w : σ} {event : LookupEvent}
    (h : Change service i l l' c c' w event) : l'.key = l.key := by
  cases h with
  | hits a before found after => rw [after]
  | misses before found after => rw [after]
  | asks answer w' before call after => rw [after]
  | keeps a before after => rw [after]

/-- What a move can be. -/
inductive LookupPool.Change (service : ReferenceLookup σ) (x x' : LookupPool) : LookupMove σ → List LookupEvent → Prop
  | step (i : Nat) (w : σ) (l l' : Lookup) (event : LookupEvent) (there : x.lookups[i]? = some l)
      (step : l.step? service i x.cache w = some (event, l', x'.cache)) (lookups : x'.lookups = x.lookups.set i l') :
      Change service x x' (.step i w) [event]
  | forget (table : CacheTable) (kind : ReferenceKind) (cache : x'.cache = x.cache.forget table kind)
      (lookups : x'.lookups = x.lookups) : Change service x x' (.forget table kind) [.forgotten table kind]
  | drop (key : CacheKey) (cache : x'.cache = x.cache.drop key) (lookups : x'.lookups = x.lookups) :
      Change service x x' (.drop key) []

theorem LookupPool.play_change {x x' : LookupPool} {m : LookupMove σ} {evs : List LookupEvent}
    (h : x.play? service m = some (evs, x')) : Change service x x' m evs := by
  cases m with
  | step i w =>
    obtain ⟨l, there, h⟩ := Option.bind_eq_some_iff.mp h
    obtain ⟨⟨event, l', cache⟩, hstep, heq⟩ := Option.map_eq_some_iff.mp h
    cases heq
    exact .step i w l l' event there hstep rfl
  | forget table kind =>
    cases h
    exact .forget table kind rfl rfl
  | drop key =>
    cases h
    exact .drop key rfl rfl

/-- What is kept under other keys does not matter. -/
theorem Lookup.step?_congr (service : ReferenceLookup σ) {l : Lookup} {c d : ReferenceCache}
    (h : c.kept? l.key = d.kept? l.key) (i : Nat) (w : σ) :
    (l.step? service i c w).map (fun (event, l', _) => (event, l')) =
      (l.step? service i d w).map fun (event, l', _) => (event, l') := by
  obtain ⟨key, phase⟩ := l
  cases phase with
  | probing =>
    rw [step?, step?, ReferenceCache.probe_eq, ReferenceCache.probe_eq, ← h]
    cases c.kept? key <;> rfl
  | asking =>
    rw [step?, step?, Option.map_map, Option.map_map]
    rfl
  | keeping a => rfl
  | ended result => rfl

theorem LookupPool.opened_getElem? (cache : ReferenceCache) {keys : List CacheKey} {i : Nat} {key : CacheKey}
    (hi : keys[i]? = some key) : (opened cache keys).lookups[i]? = some ⟨key, .probing⟩ := by
  rw [opened, List.getElem?_map, hi]
  rfl

theorem LookupPool.lookups_after {x x' : LookupPool} {i : Nat} {l l' : Lookup} (there : x.lookups[i]? = some l)
    (lookups : x'.lookups = x.lookups.set i l') (j : Nat) :
    x'.lookups[j]? = if j = i then some l' else x.lookups[j]? := by
  have hlt : i < x.lookups.length := (List.getElem?_eq_some_iff.mp there).1
  rw [lookups, List.getElem?_set]
  by_cases hj : j = i
  · subst hj
    rw [if_pos rfl, if_pos hlt, if_pos rfl]
  · rw [if_neg (Ne.symm hj), if_neg hj]

/-- How many steps a lookup may still take. -/
def LookupPhase.left {α : Type} : LookupPhase α → Nat
  | .probing => 3
  | .asking => 2
  | .keeping _ => 1
  | .ended _ => 0

def LookupMove.isStepOf {σ : Type} (i : Nat) : LookupMove σ → Bool
  | .step j _ => j == i
  | _ => false

theorem Lookup.Change.left_lt {i : Nat} {l l' : Lookup} {c c' : ReferenceCache} {w : σ} {event : LookupEvent}
    (h : Change service i l l' c c' w event) : l'.phase.left < l.phase.left := by
  cases h with
  | hits a before found after => rw [before, after]; exact Nat.zero_lt_succ _
  | misses before found after => rw [before, after]; exact Nat.lt_succ_self _
  | asks answer w' before call after =>
    rw [before, after]
    cases answer.bind l.key.accept with
    | error f => exact Nat.zero_lt_succ _
    | ok a => exact Nat.lt_succ_self _
  | keeps a before after => rw [before, after]; exact Nat.zero_lt_succ _

/-- Each step of a lookup lowers what is left of it, and nothing else changes that. -/
theorem LookupPool.play_left {x x' : LookupPool} {m : LookupMove σ} {evs : List LookupEvent} {i : Nat} {l : Lookup}
    (hl : x.lookups[i]? = some l) (hplay : x.play? service m = some (evs, x')) :
    ∃ l', x'.lookups[i]? = some l' ∧ l'.key = l.key ∧
      l'.phase.left + (if m.isStepOf i then 1 else 0) ≤ l.phase.left := by
  cases play_change hplay with
  | step j w q q' event there step lookups =>
    rw [lookups_after there lookups]
    by_cases hi : i = j
    · subst hi
      cases there.symm.trans hl
      refine ⟨q', if_pos rfl, (Lookup.step_change step).key_eq, ?_⟩
      rw [LookupMove.isStepOf, beq_self_eq_true, if_pos rfl]
      exact (Lookup.step_change step).left_lt
    · refine ⟨l, by rw [if_neg hi, hl], rfl, ?_⟩
      rw [LookupMove.isStepOf, if_neg (by simpa using Ne.symm hi)]
      exact Nat.le_refl _
  | forget table kind cache lookups => exact ⟨l, by rw [lookups, hl], rfl, Nat.le_refl _⟩
  | drop key cache lookups => exact ⟨l, by rw [lookups, hl], rfl, Nat.le_refl _⟩

/-- So a lookup keeps its key and makes no more steps than were left. -/
theorem LookupPool.story_left {x x' : LookupPool} {moves : List (LookupMove σ)} {log : List LookupEvent} {i : Nat}
    {l : Lookup} (hl : x.lookups[i]? = some l) (hplay : story? (play? service) x moves = some (log, x')) :
    ∃ l', x'.lookups[i]? = some l' ∧ l'.key = l.key ∧ l'.phase.left + moves.countP (·.isStepOf i) ≤ l.phase.left := by
  have hstep (y : LookupPool) (m : LookupMove σ) (evs : List LookupEvent) (z : LookupPool) (n : Nat)
      (hy : ∃ q, y.lookups[i]? = some q ∧ q.key = l.key ∧ q.phase.left = n) (hm : y.play? service m = some (evs, z)) :
      ∃ n', (∃ q, z.lookups[i]? = some q ∧ q.key = l.key ∧ q.phase.left = n') ∧
        n' + (if m.isStepOf i then 1 else 0) ≤ n := by
    obtain ⟨q, hq, hkey, rfl⟩ := hy
    obtain ⟨q', hq', hkey', hless⟩ := play_left hq hm
    exact ⟨_, ⟨q', hq', hkey'.trans hkey, rfl⟩, hless⟩
  obtain ⟨n, ⟨l', hl', hkey, rfl⟩, hall⟩ := story_lowers hstep ⟨l, hl, rfl, rfl⟩ hplay
  exact ⟨l', hl', hkey, hall⟩

end Steps

section Alone

variable {σ : Type} {service : ReferenceLookup σ}

theorem ReferenceCache.run_step {α : Type} (f : ReferenceCache → α × ReferenceCache) (c : ReferenceCache) (w : σ) :
    (step f).run (c, w) = some (.ok (f c).1, (f c).2, w) := rfl

theorem ReferenceCache.run_fromService {α : Type} (e : Effect σ α) (c : ReferenceCache) (w : σ) :
    (fromService e).run (c, w) = (e.run w).map fun (answer, w) => (answer, c, w) := rfl

/-- What follows a miss, for an answer of the service. -/
def CacheKey.settle (key : CacheKey) (c : ReferenceCache) (answer : Except Failure key.table.Value) :
    Except Failure key.table.Value × ReferenceCache :=
  match answer.bind key.accept with
  | .ok a => (.ok a, c.keep key a)
  | .error f => (.error f, c)

theorem ReferenceCache.run_fetchId (kind : ReferenceKind) (id : String) (c : ReferenceCache) (w : σ) :
    (fetchId service kind id).run (c, w) = ((service.byId kind id).run w).map fun (answer, w) =>
      ((CacheKey.settle ⟨.ids, kind, id⟩ c answer).1, (CacheKey.settle ⟨.ids, kind, id⟩ c answer).2, w) := by
  rw [fetchId, Effect.run_bind, run_fromService]
  cases (service.byId kind id).run w with
  | none => rfl
  | some outcome =>
    obtain ⟨answer, w'⟩ := outcome
    cases answer <;> rfl

theorem CacheKey.run_resolve (key : CacheKey) (c : ReferenceCache) (w : σ) : (key.resolve service).run (c, w) =
    match c.probe key with
    | (some a, c) => some (.ok a, c, w)
    | (none, c) => ((key.ask service).run w).map fun (answer, w) =>
      ((key.settle c answer).1, (key.settle c answer).2, w) := by
  obtain ⟨table, kind, text⟩ := key
  cases table with
  | ids =>
    rw [resolve, ReferenceCache.resolveId, Effect.run_bind, ReferenceCache.run_step, Option.bind_some, ask,
      ReferenceCache.probe]
    cases hfound : ReferenceCache.probeId kind text c with | mk found c' =>
    cases found with
    | some entity => rfl
    | none => exact ReferenceCache.run_fetchId kind text c' w
  | names =>
    rw [resolve, ReferenceCache.resolveAll, Effect.run_bind, ReferenceCache.run_step, Option.bind_some, ask,
      ReferenceCache.probe]
    cases hfound : ReferenceCache.probeName kind text c with | mk found c' =>
    cases found with
    | some entities => rfl
    | none =>
      dsimp only
      rw [Effect.run_bind, ReferenceCache.run_fromService]
      cases (service.byQuery kind (kind.exactMatchQuery text)).run w with
      | none => rfl
      | some outcome =>
        obtain ⟨answer, w'⟩ := outcome
        cases answer with
        | error f => rfl
        | ok entities => cases entities <;> rfl

namespace LookupPool

variable {c c' : ReferenceCache} {w w' : σ} {before after : List Lookup} {l l' : Lookup} {event : LookupEvent}

theorem play?_step (h : l.step? service before.length c w = some (event, l', c')) :
    play? service ⟨c, before ++ l :: after⟩ (.step before.length w) = some ([event], ⟨c', before ++ l' :: after⟩) := by
  rw [play?, List.getElem?_append_right (Nat.le_refl _), Nat.sub_self]
  simp only [List.getElem?_cons_zero, Option.bind_some, h, Option.map_some]
  rw [List.set_append_right _ _ (Nat.le_refl _), Nat.sub_self, List.set_cons_zero]

/-- What a probe leads to. -/
def afterProbe {α : Type} : Option α → LookupPhase α
  | some a => .ended (.ok a)
  | none => .asking

theorem story?_probe (service : ReferenceLookup σ) (c : ReferenceCache) (before after : List Lookup) (key : CacheKey)
    (w : σ) : ∃ log,
    story? (play? service) ⟨c, before ++ ⟨key, .probing⟩ :: after⟩ [.step before.length w] =
      some (log, ⟨(c.probe key).2, before ++ ⟨key, afterProbe (c.probe key).1⟩ :: after⟩) := by
  have hstep : ∃ event, Lookup.step? service before.length ⟨key, .probing⟩ c w =
      some (event, ⟨key, afterProbe (c.probe key).1⟩, (c.probe key).2) := by
    rw [Lookup.step?]
    cases c.probe key with | mk found c' =>
    cases found <;> exact ⟨_, rfl⟩
  obtain ⟨event, hstep⟩ := hstep
  exact ⟨[event], story?_cons_iff.mpr ⟨_, _, _, play?_step hstep, rfl, rfl⟩⟩

/-- The service is called, and its answer is kept if there is one. -/
theorem story?_ask (c : ReferenceCache) (before after : List Lookup) (key : CacheKey)
    {answer : Except Failure key.table.Value} (h : (key.ask service).run w = some (answer, w')) : ∃ moves log,
    story? (play? service) ⟨c, before ++ ⟨key, .asking⟩ :: after⟩ moves =
      some (log, ⟨(key.settle c answer).2, before ++ ⟨key, .ended (key.settle c answer).1⟩ :: after⟩) := by
  have hask : play? service ⟨c, before ++ ⟨key, .asking⟩ :: after⟩ (.step before.length w) =
      some ([.asked before.length key answer],
        ⟨c, before ++ ⟨key, .ofAnswer (answer.bind key.accept)⟩ :: after⟩) :=
    play?_step (by rw [Lookup.step?, h]; rfl)
  rw [CacheKey.settle]
  cases haccepted : answer.bind key.accept with
  | error f =>
    rw [haccepted] at hask
    exact ⟨[.step before.length w], _, story?_cons_iff.mpr ⟨_, _, _, hask, rfl, rfl⟩⟩
  | ok a =>
    rw [haccepted] at hask
    have hkeep : play? service ⟨c, before ++ ⟨key, .keeping a⟩ :: after⟩ (.step before.length w) =
        some ([.kept before.length key a], ⟨c.keep key a, before ++ ⟨key, .ended (.ok a)⟩ :: after⟩) :=
      play?_step rfl
    exact ⟨[.step before.length w, .step before.length w], _,
      story?_cons_iff.mpr ⟨_, _, _, hask, story?_cons_iff.mpr ⟨_, _, _, hkeep, rfl, rfl⟩, rfl⟩⟩

/-- A lookup by itself. -/
theorem resolve_is_story {key : CacheKey} {r : Except Failure key.table.Value}
    (h : (key.resolve service).run (c, w) = some (r, c', w')) : ∃ moves log,
    story? (play? service) (opened c [key]) moves = some (log, ⟨c', [⟨key, .ended r⟩]⟩) := by
  obtain ⟨log, hprobe⟩ := story?_probe service c [] [] key w
  rw [CacheKey.run_resolve] at h
  generalize c.probe key = probed at h hprobe
  obtain ⟨found, c₁⟩ := probed
  cases found with
  | some a =>
    cases h
    exact ⟨_, log, hprobe⟩
  | none =>
    obtain ⟨⟨answer, w₁⟩, hask, heq⟩ := Option.map_eq_some_iff.mp h
    cases heq
    obtain ⟨moves, later, hlater⟩ := story?_ask c₁ [] [] key hask
    exact ⟨_, _, story?_append_iff.mpr ⟨_, _, _, hprobe, hlater, rfl⟩⟩

private theorem story?_probes {α : Type} (service : ReferenceLookup σ) (key : CacheKey) (w : σ) (l : List α)
    (c : ReferenceCache) (before : List Lookup) : ∃ moves log c',
    (l.mapM fun _ => ReferenceCache.step (ReferenceCache.probe key)).run (c, w) =
        some (.ok (l.map fun _ => c.kept? key), c', w) ∧
      story? (play? service) ⟨c, before ++ l.map fun _ => ⟨key, .probing⟩⟩ moves =
        some (log, ⟨c', before ++ l.map fun _ => ⟨key, afterProbe (c.kept? key)⟩⟩) := by
  induction l generalizing c before with
  | nil => exact ⟨[], [], c, rfl, rfl⟩
  | cons a rest ih =>
    obtain ⟨log, hprobe⟩ := story?_probe service c before (rest.map fun _ => ⟨key, .probing⟩) key w
    rw [ReferenceCache.probe_eq] at hprobe
    obtain ⟨moves, later, c', hrun, hlater⟩ :=
      ih (c.count (c.kept? key).isSome) (before ++ [⟨key, afterProbe (c.kept? key)⟩])
    rw [ReferenceCache.kept?_count] at hrun hlater
    simp only [List.append_assoc, List.singleton_append] at hlater
    refine ⟨_, _, c', ?_, story?_append_iff.mpr ⟨_, _, _, hprobe, hlater, rfl⟩⟩
    rw [List.mapM_cons, Effect.run_bind, ReferenceCache.run_step, ReferenceCache.probe_eq, Option.bind_some]
    dsimp only
    rw [Effect.run_bind, hrun]
    rfl

/-- What follows the probe of an id. -/
private def finishId (service : ReferenceLookup σ) (kind : ReferenceKind) (id : String) :
    Option Json → Effect (ReferenceCache × σ) Json
  | some entity => pure entity
  | none => ReferenceCache.fetchId service kind id

private theorem story?_finishId (before after : List Lookup) {kind : ReferenceKind} {id : String}
    {found : Option Json} {r : Except Failure Json}
    (h : (finishId service kind id found).run (c, w) = some (r, c', w')) : ∃ moves log,
    story? (play? service) ⟨c, before ++ ⟨⟨.ids, kind, id⟩, afterProbe found⟩ :: after⟩ moves =
      some (log, ⟨c', before ++ ⟨⟨.ids, kind, id⟩, .ended r⟩ :: after⟩) := by
  cases found with
  | some entity =>
    cases h
    exact ⟨[], [], rfl⟩
  | none =>
    rw [finishId, ReferenceCache.run_fetchId] at h
    obtain ⟨⟨answer, w₁⟩, hask, heq⟩ := Option.map_eq_some_iff.mp h
    cases heq
    exact story?_ask c before after ⟨.ids, kind, id⟩ hask

private theorem story?_finishAll (before : List Lookup) {kind : ReferenceKind} {id : String}
    {founds : List (Option Json)} {r : Except Failure (List (Except Failure Json))}
    (h : (founds.mapM fun found => (finishId service kind id found).attempt).run (c, w) = some (r, c', w')) :
    ∃ results moves log, r = .ok results ∧
      story? (play? service) ⟨c, before ++ founds.map fun found => ⟨⟨.ids, kind, id⟩, afterProbe found⟩⟩ moves =
        some (log, ⟨c', before ++ results.map fun r => ⟨⟨.ids, kind, id⟩, .ended r⟩⟩) := by
  induction founds generalizing c w r c' w' before with
  | nil =>
    cases h
    exact ⟨[], [], [], rfl, rfl⟩
  | cons found rest ih =>
    rw [List.mapM_cons, Effect.run_bind] at h
    obtain ⟨⟨first, c₁, w₁⟩, hfirst, hrest⟩ := Option.bind_eq_some_iff.mp h
    obtain ⟨⟨r₁, c₂, w₂⟩, hfinish, heq⟩ := Option.map_eq_some_iff.mp hfirst
    cases heq
    dsimp only at hrest
    rw [Effect.run_bind] at hrest
    obtain ⟨⟨more, c₃, w₃⟩, hmore, hlast⟩ := Option.bind_eq_some_iff.mp hrest
    obtain ⟨moves, log, hstory⟩ := story?_finishId before
      (rest.map fun found => ⟨⟨.ids, kind, id⟩, afterProbe found⟩) hfinish
    obtain ⟨results, moves', later, rfl, hlater⟩ := ih (before ++ [⟨⟨.ids, kind, id⟩, .ended r₁⟩]) hmore
    cases hlast
    simp only [List.append_assoc, List.singleton_append] at hlater
    exact ⟨r₁ :: results, _, _, rfl, story?_append_iff.mpr ⟨_, _, _, hstory, hlater, rfl⟩⟩

/-- Lookups of one id that all start before the service is called. -/
theorem resolveTogether_is_story {kind : ReferenceKind} {id : String} {n : Nat}
    {r : Except Failure (List (Except Failure Json))}
    (h : (ReferenceCache.resolveTogether service kind id n).run (c, w) = some (r, c', w')) :
    ∃ results y probes calls log later, r = .ok results ∧
      story? (play? service) (opened c (List.replicate n ⟨.ids, kind, id⟩)) probes = some (log, y) ∧
      y.lookups = List.replicate n ⟨⟨.ids, kind, id⟩, afterProbe (c.kept? ⟨.ids, kind, id⟩)⟩ ∧
      story? (play? service) y calls = some (later, ⟨c', results.map fun r => ⟨⟨.ids, kind, id⟩, .ended r⟩⟩) := by
  obtain ⟨probes, log, c₁, hprobes, hstory⟩ :=
    story?_probes service ⟨.ids, kind, id⟩ w (List.range n) c []
  have hreplicate {β : Type} (b : β) : ((List.range n).map fun _ => b) = List.replicate n b := by
    rw [List.map_const', List.length_range]
  rw [ReferenceCache.resolveTogether, Effect.run_bind] at h
  obtain ⟨⟨founds, c₂, w₂⟩, hfounds, hcalls⟩ := Option.bind_eq_some_iff.mp h
  cases hprobes.symm.trans hfounds
  have hfinish : (((List.range n).map fun _ => c.kept? ⟨.ids, kind, id⟩).mapM fun found =>
      (finishId service kind id found).attempt).run (c₁, w) = some (r, c', w') := by
    rw [← hcalls]
    dsimp only
    congr 2
  obtain ⟨results, calls, later, rfl, hlater⟩ := story?_finishAll [] hfinish
  rw [hreplicate, hreplicate, List.nil_append, List.nil_append] at hstory
  rw [hreplicate, List.map_replicate, List.nil_append] at hlater
  refine ⟨results, _, probes, calls, log, later, rfl, ?_, rfl, hlater⟩
  rw [opened, List.map_replicate, hstory]

end LookupPool

end Alone
end BatchExport
