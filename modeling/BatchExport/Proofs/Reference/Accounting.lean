import BatchExport.Proofs.Reference.Lookups

/-! Which lookups call the service, and what they leave behind, as long as there is room for every entry. Main
statements: hits, misses and calls are accounted for, what is kept answers all later lookups until its kind is
forgotten, and lookups of another kind notice nothing of that. -/
namespace BatchExport

namespace CacheKey

/-- What may be kept: any entity, and entities if there are some. -/
def MayKeep : (key : CacheKey) → key.table.Value → Prop
  | ⟨.ids, _, _⟩, _ => True
  | ⟨.names, _, _⟩, entities => entities ≠ []

theorem mayKeep_of_accept {key : CacheKey} {answer : Except Failure key.table.Value} {a : key.table.Value}
    (h : answer.bind key.accept = .ok a) : answer = .ok a ∧ key.MayKeep a := by
  obtain ⟨table, kind, text⟩ := key
  cases answer with
  | error f => cases h
  | ok b =>
    cases table with
    | ids =>
      cases h
      exact ⟨rfl, trivial⟩
    | names =>
      cases b with
      | nil => cases h
      | cons entity rest =>
        cases h
        exact ⟨rfl, List.cons_ne_nil _ _⟩

end CacheKey

namespace LookupEvent

def isHit : LookupEvent → Bool
  | hit _ _ _ => true
  | _ => false

def isMiss : LookupEvent → Bool
  | missed _ _ => true
  | _ => false

/-- A call of the service. -/
def isCall : LookupEvent → Bool
  | asked _ _ _ => true
  | _ => false

def isOf (i : Nat) : LookupEvent → Bool
  | hit j _ _ | missed j _ | asked j _ _ | kept j _ _ => j == i
  | forgotten _ _ => false

def kind : LookupEvent → ReferenceKind
  | hit _ key _ | missed _ key | asked _ key _ | kept _ key _ => key.kind
  | forgotten _ kind => kind

/-- What becomes of the entry under a key. -/
def applyTo (key : CacheKey) (entry : Option key.table.Value) : LookupEvent → Option key.table.Value
  | kept _ other a => if h : other = key then some (h ▸ a) else entry
  | forgotten table kind => if key.table = table ∧ key.kind = kind then none else entry
  | _ => entry

end LookupEvent

/-- The last answer kept under a key that has not been forgotten. -/
def lastKept? (key : CacheKey) (log : List LookupEvent) : Option key.table.Value :=
  log.foldl (LookupEvent.applyTo key) none

/-- A probe finds what was kept last, and a lookup keeps what the service has answered it after a miss, if that may be
kept. -/
def LookupEvent.Follows (before : List LookupEvent) : LookupEvent → Prop
  | hit _ key a => lastKept? key before = some a
  | missed _ key => lastKept? key before = none
  | kept i key a => missed i key ∈ before ∧ asked i key (.ok a) ∈ before ∧ key.MayKeep a
  | _ => True

namespace LookupPhase

variable {α : Type}

def hasBegun : LookupPhase α → Bool
  | probing => false
  | _ => true

def isAsking : LookupPhase α → Bool
  | asking => true
  | _ => false

def isKeeping : LookupPhase α → Bool
  | keeping _ => true
  | _ => false

end LookupPhase

/-- What a lookup has told so far. A hit calls nobody; a miss calls the service once and keeps the answer if it is one. -/
inductive Lookup.Course (i : Nat) : Lookup → List LookupEvent → Prop
  | waiting (key : CacheKey) : Course i ⟨key, .probing⟩ []
  | hit (key : CacheKey) (a : key.table.Value) : Course i ⟨key, .ended (.ok a)⟩ [.hit i key a]
  | asking (key : CacheKey) : Course i ⟨key, .asking⟩ [.missed i key]
  | failed (key : CacheKey) (answer : Except Failure key.table.Value) (f : Failure)
      (refused : answer.bind key.accept = .error f) :
      Course i ⟨key, .ended (.error f)⟩ [.missed i key, .asked i key answer]
  | keeping (key : CacheKey) (a : key.table.Value) (mayKeep : key.MayKeep a) :
      Course i ⟨key, .keeping a⟩ [.missed i key, .asked i key (.ok a)]
  | kept (key : CacheKey) (a : key.table.Value) (mayKeep : key.MayKeep a) :
      Course i ⟨key, .ended (.ok a)⟩ [.missed i key, .asked i key (.ok a), .kept i key a]

namespace LookupPool

variable {σ : Type}

/-- What is kept takes nobody's place, and no entry gets lost. -/
def hasRoom (x : LookupPool) : LookupMove σ → Bool
  | .step i _ => x.lookups[i]?.all fun l => !l.phase.isKeeping || x.cache.HasRoom l.key
  | .forget _ _ => true
  | .drop _ => false

/-- The moves as they are, as long as there is room. -/
def playWithRoom? (service : ReferenceLookup σ) (x : LookupPool) (m : LookupMove σ) :
    Option (List LookupEvent × LookupPool) :=
  if x.hasRoom m then x.play? service m else none

end LookupPool

section Accounts

variable {σ : Type} {service : ReferenceLookup σ} {x x' : LookupPool} {m : LookupMove σ} {log evs : List LookupEvent}

theorem LookupPool.playWithRoom?_eq_some (h : x.playWithRoom? service m = some (evs, x')) :
    x.hasRoom m = true ∧ x.play? service m = some (evs, x') := by
  rw [playWithRoom?] at h
  split at h
  · exact ⟨‹_›, h⟩
  · cases h

theorem LookupEvent.applyTo_kept (key : CacheKey) (entry : Option key.table.Value) (i : Nat) (a : key.table.Value) :
    applyTo key entry (.kept i key a) = some a := dif_pos rfl

/-- With room, the events tell what becomes of the entries. -/
theorem LookupPool.kept?_after (hroom : x.hasRoom m = true) (h : Change service x x' m evs) (key : CacheKey) :
    x'.cache.kept? key = evs.foldl (LookupEvent.applyTo key) (x.cache.kept? key) := by
  cases h with
  | forget table kind cache lookups =>
    rw [cache, ReferenceCache.kept?_forget]
    rfl
  | drop dropped cache lookups => cases hroom
  | step i w l l' event there step lookups =>
    rw [List.foldl_cons, List.foldl_nil]
    cases Lookup.step_change step with
    | hits a before found after cache => rw [cache, ReferenceCache.kept?_count]; rfl
    | misses before found after cache => rw [cache, ReferenceCache.kept?_count]; rfl
    | asks answer w' before call after cache => rw [cache]; rfl
    | keeps a before after cache =>
      have hfree : x.cache.HasRoom l.key := by simpa [hasRoom, there, LookupPhase.isKeeping, before] using hroom
      rw [cache]
      by_cases hkey : key = l.key
      · subst hkey
        rw [ReferenceCache.kept?_keep_of_room hfree, LookupEvent.applyTo_kept]
      · rw [ReferenceCache.kept?_keep_of_ne hfree a hkey, LookupEvent.applyTo, dif_neg (Ne.symm hkey)]

theorem lastKept?_append (key : CacheKey) (log evs : List LookupEvent) :
    lastKept? key (log ++ evs) = evs.foldl (LookupEvent.applyTo key) (lastKept? key log) :=
  List.foldl_append

private theorem countP_after {i : Nat} {l : Lookup} (there : x.lookups[i]? = some l) (l' : Lookup) (p : Lookup → Bool) :
    (x.lookups.set i l').countP p + (if p l then 1 else 0) = x.lookups.countP p + if p l' then 1 else 0 := by
  obtain ⟨hlt, rfl⟩ := List.getElem?_eq_some_iff.mp there
  have hmem : p x.lookups[i] = true → 0 < x.lookups.countP p := fun hp =>
    List.countP_pos_iff.mpr ⟨_, List.getElem_mem hlt, hp⟩
  rw [List.countP_set hlt]
  split
  · have := hmem ‹_›
    omega
  · omega

/-- What is accounted for at any time. -/
structure LookupPool.Accounted (log : List LookupEvent) (x : LookupPool) : Prop where
  hits : x.cache.hits = log.countP (·.isHit)
  misses : x.cache.misses = log.countP (·.isMiss)
  begun : x.cache.lookups = x.lookups.countP (·.phase.hasBegun)
  calls : log.countP (·.isCall) + x.lookups.countP (·.phase.isAsking) = x.cache.misses
  courses : ∀ i (l : Lookup), x.lookups[i]? = some l → l.Course i (log.filter (·.isOf i))
  contents : ∀ key, x.cache.kept? key = lastKept? key log
  obeys : Obeys LookupEvent.Follows log

private theorem Lookup.Course.step {i : Nat} {l l' : Lookup} {c c' : ReferenceCache} {w : σ} {event : LookupEvent}
    (h : l.Course i log) (hstep : Lookup.Change service i l l' c c' w event) : l'.Course i (log ++ [event]) := by
  obtain ⟨key, phase⟩ := l
  cases hstep with
  | hits a before found after =>
    obtain rfl : phase = .probing := before
    cases h
    rw [after]
    exact .hit key a
  | misses before found after =>
    obtain rfl : phase = .probing := before
    cases h
    rw [after]
    exact .asking key
  | asks answer w' before call after =>
    obtain rfl : phase = .asking := before
    cases h
    rw [after]
    cases haccepted : answer.bind key.accept with
    | error f => exact .failed key answer f haccepted
    | ok a =>
      obtain ⟨rfl, hmay⟩ := CacheKey.mayKeep_of_accept haccepted
      exact .keeping key a hmay
  | keeps a before after =>
    change key.table.Value at a
    obtain rfl : phase = .keeping a := before
    cases h with
    | keeping _ _ hmay =>
      rw [after]
      exact .kept key a hmay

private theorem Lookup.Course.of_keeping {i : Nat} {l : Lookup} {a : l.key.table.Value} (h : l.Course i log)
    (hphase : l.phase = .keeping a) : .missed i l.key ∈ log ∧ .asked i l.key (.ok a) ∈ log ∧ l.key.MayKeep a := by
  obtain ⟨key, phase⟩ := l
  change key.table.Value at a
  obtain rfl : phase = .keeping a := hphase
  cases h with
  | keeping _ _ mayKeep => exact ⟨List.mem_cons_self, List.mem_cons_of_mem _ List.mem_cons_self, mayKeep⟩

/-- A lookup that has missed calls the service once. -/
private theorem Lookup.Course.calls {i : Nat} {l : Lookup} {key : CacheKey} (h : l.Course i log)
    (hmissed : .missed i key ∈ log) : log.countP (·.isCall) = if l.phase.isAsking then 0 else 1 := by
  cases h with
  | waiting key => cases hmissed
  | hit key a => cases List.mem_singleton.mp hmissed
  | asking key => rfl
  | failed key answer f refused => rfl
  | keeping key a mayKeep => rfl
  | kept key a mayKeep => rfl

private theorem Lookup.Change.isOf {i : Nat} {l l' : Lookup} {c c' : ReferenceCache} {w : σ} {event : LookupEvent}
    (h : Lookup.Change service i l l' c c' w event) (j : Nat) : event.isOf j = (i == j) := by
  cases h <;> rfl

/-- What a step adds to the counters, to the lookups that have begun and to those that wait for the service. -/
private theorem Lookup.Change.counts {i : Nat} {l l' : Lookup} {c c' : ReferenceCache} {w : σ} {event : LookupEvent}
    (h : Lookup.Change service i l l' c c' w event) :
    c'.hits = c.hits + [event].countP (·.isHit) ∧ c'.misses = c.misses + [event].countP (·.isMiss) ∧
      (if l.phase.hasBegun then 1 else 0) + [event].countP (·.isHit) + [event].countP (·.isMiss) =
        (if l'.phase.hasBegun then 1 else 0) ∧
      [event].countP (·.isCall) + (if l'.phase.isAsking then 1 else 0) =
        (if l.phase.isAsking then 1 else 0) + [event].countP (·.isMiss) := by
  cases h with
  | hits a before found after cache =>
    rw [before, after, cache]
    exact ⟨rfl, rfl, rfl, rfl⟩
  | misses before found after cache =>
    rw [before, after, cache]
    exact ⟨rfl, rfl, rfl, rfl⟩
  | asks answer w' before call after cache =>
    rw [before, after, cache]
    cases answer.bind l.key.accept <;> exact ⟨rfl, rfl, rfl, rfl⟩
  | keeps a before after cache =>
    rw [before, after, cache, ReferenceCache.keep_eq, ReferenceCache.hits_withEntries, ReferenceCache.misses_withEntries]
    exact ⟨rfl, rfl, rfl, rfl⟩

private theorem LookupPool.Accounted.lawful {i : Nat} {l l' : Lookup} {w : σ} {event : LookupEvent}
    (h : x.Accounted log) (there : x.lookups[i]? = some l)
    (hstep : Lookup.Change service i l l' x.cache x'.cache w event) : event.Follows log := by
  cases hstep with
  | hits a before found => exact (h.contents l.key).symm.trans found
  | misses before found => exact (h.contents l.key).symm.trans found
  | asks => trivial
  | keeps a before =>
    obtain ⟨hmissed, hasked, hmay⟩ := (h.courses i l there).of_keeping before
    exact ⟨(List.mem_filter.mp hmissed).1, (List.mem_filter.mp hasked).1, hmay⟩

private theorem LookupPool.Accounted.step {i : Nat} {l l' : Lookup} {w : σ} {event : LookupEvent}
    (h : x.Accounted log) (hroom : x.hasRoom (.step i w) = true) (there : x.lookups[i]? = some l)
    (step : l.step? service i x.cache w = some (event, l', x'.cache)) (lookups : x'.lookups = x.lookups.set i l') :
    x'.Accounted (log ++ [event]) := by
  have hstep := Lookup.step_change step
  obtain ⟨hhits, hmisses, hbegun, hcalls⟩ := hstep.counts
  have hbegun' := countP_after there l' (·.phase.hasBegun)
  have hasking' := countP_after there l' (·.phase.isAsking)
  have hbefore := h.begun
  have hcallsBefore := h.calls
  rw [ReferenceCache.lookups] at hbefore
  refine ⟨?_, ?_, ?_, ?_, ?_, ?_, ?_⟩
  · rw [hhits, h.hits, List.countP_append]
  · rw [hmisses, h.misses, List.countP_append]
  · rw [ReferenceCache.lookups, hhits, hmisses, lookups]
    omega
  · rw [List.countP_append, lookups, hmisses]
    omega
  · intro j q hq
    rw [lookups_after there lookups] at hq
    rw [List.filter_append, List.filter_cons, List.filter_nil, hstep.isOf]
    by_cases hj : j = i
    · subst hj
      rw [if_pos rfl] at hq
      cases hq
      rw [beq_self_eq_true, if_pos rfl]
      exact (h.courses j l there).step hstep
    · rw [if_neg hj] at hq
      rw [beq_false_of_ne (Ne.symm hj), if_neg Bool.false_ne_true, List.append_nil]
      exact h.courses j q hq
  · intro key
    rw [kept?_after hroom (.step i w l l' event there step lookups) key, lastKept?_append, h.contents]
  · exact Obeys.snoc_iff.mpr ⟨h.obeys, h.lawful there hstep⟩

private theorem LookupPool.Accounted.forget {table : CacheTable} {kind : ReferenceKind} (h : x.Accounted log)
    (cache : x'.cache = x.cache.forget table kind) (lookups : x'.lookups = x.lookups) :
    x'.Accounted (log ++ [.forgotten table kind]) := by
  have hhits : x'.cache.hits = x.cache.hits := by rw [cache, ReferenceCache.forget, ReferenceCache.hits_withEntries]
  have hmisses : x'.cache.misses = x.cache.misses := by
    rw [cache, ReferenceCache.forget, ReferenceCache.misses_withEntries]
  refine ⟨?_, ?_, ?_, ?_, ?_, ?_, ?_⟩
  · rw [hhits, h.hits, List.countP_append]
    rfl
  · rw [hmisses, h.misses, List.countP_append]
    rfl
  · rw [ReferenceCache.lookups, hhits, hmisses, lookups]
    exact h.begun
  · rw [List.countP_append, hmisses, lookups]
    exact h.calls
  · intro j q hq
    rw [lookups] at hq
    rw [List.filter_append]
    exact (List.append_nil _).symm ▸ h.courses j q hq
  · intro key
    rw [cache, ReferenceCache.kept?_forget, lastKept?_append, ← h.contents]
    rfl
  · exact Obeys.snoc_iff.mpr ⟨h.obeys, trivial⟩

theorem LookupPool.Accounted.play (h : x.Accounted log) (hplay : x.playWithRoom? service m = some (evs, x')) :
    x'.Accounted (log ++ evs) := by
  obtain ⟨hroom, hmove⟩ := playWithRoom?_eq_some hplay
  cases play_change hmove with
  | step i w l l' event there step lookups => exact h.step hroom there step lookups
  | forget table kind cache lookups => exact h.forget cache lookups
  | drop key => cases hroom

theorem LookupPool.Accounted.nil (cache : ReferenceCache) (keys : List CacheKey) (hits : cache.hits = 0)
    (misses : cache.misses = 0) (hempty : ∀ key, cache.kept? key = none) : (opened cache keys).Accounted [] := by
  have hcount (p : Lookup → Bool) (hp : ∀ key, p ⟨key, .probing⟩ = false) : (opened cache keys).lookups.countP p = 0 := by
    rw [List.countP_eq_zero]
    intro l hl
    obtain ⟨key, -, rfl⟩ := List.mem_map.mp hl
    simp [hp]
  refine ⟨hits, misses, ?_, ?_, ?_, hempty, .nil⟩
  · rw [hcount _ fun _ => rfl, ReferenceCache.lookups]
    exact Nat.add_eq_zero_iff.mpr ⟨hits, misses⟩
  · rw [hcount _ fun _ => rfl]
    exact misses.symm
  · intro i l hl
    rw [opened, List.getElem?_map] at hl
    obtain ⟨key, -, rfl⟩ := Option.map_eq_some_iff.mp hl
    exact .waiting key

/-- What is kept is there until its kind is forgotten, unless another answer takes its place. -/
private theorem foldl_applyTo_some {key : CacheKey} {a : key.table.Value} {mid : List LookupEvent}
    (hkept : .forgotten key.table key.kind ∉ mid) : ∃ b, mid.foldl (LookupEvent.applyTo key) (some a) = some b ∧
      (b = a ∨ ∃ m, .kept m key b ∈ mid) := by
  induction mid generalizing a with
  | nil => exact ⟨a, rfl, .inl rfl⟩
  | cons event rest ih =>
    have hrest (c : key.table.Value) := ih (a := c) (List.not_mem_of_not_mem_cons hkept)
    have hsame (hevent : LookupEvent.applyTo key (some a) event = some a) :
        ∃ b, (event :: rest).foldl (LookupEvent.applyTo key) (some a) = some b ∧
          (b = a ∨ ∃ m, .kept m key b ∈ event :: rest) := by
      obtain ⟨b, hb, horigin⟩ := hrest a
      rw [List.foldl_cons, hevent]
      exact ⟨b, hb, horigin.imp_right fun ⟨m, hm⟩ => ⟨m, List.mem_cons_of_mem _ hm⟩⟩
    cases event with
    | hit i other c => exact hsame rfl
    | missed i other => exact hsame rfl
    | asked i other answer => exact hsame rfl
    | forgotten table kind =>
      refine hsame (if_neg ?_)
      rintro ⟨rfl, rfl⟩
      exact hkept List.mem_cons_self
    | kept i other c =>
      by_cases hkey : other = key
      · subst hkey
        obtain ⟨b, hb, horigin⟩ := hrest c
        rw [List.foldl_cons, LookupEvent.applyTo_kept]
        refine ⟨b, hb, .inr ?_⟩
        obtain rfl | ⟨m, hm⟩ := horigin
        · exact ⟨i, List.mem_cons_self⟩
        · exact ⟨m, List.mem_cons_of_mem _ hm⟩
      · exact hsame (dif_neg hkey)

/-- Where nothing was kept and nothing is, nothing is found. -/
private theorem foldl_applyTo_none {key : CacheKey} {mid : List LookupEvent} (hkept : ∀ i a, .kept i key a ∉ mid) :
    mid.foldl (LookupEvent.applyTo key) none = none := by
  induction mid with
  | nil => rfl
  | cons event rest ih =>
    have hnone : LookupEvent.applyTo key none event = none := by
      cases event with
      | kept i other a =>
        refine dif_neg ?_
        rintro rfl
        exact hkept i a List.mem_cons_self
      | forgotten table kind => exact ite_self _
      | _ => rfl
    rw [List.foldl_cons, hnone]
    exact ih fun i a h => hkept i a (List.mem_cons_of_mem _ h)

/-- After a success the same answer is found until the kind is forgotten, or that of another lookup which had missed
before the success as well. -/
private theorem Obeys.found_later (h : Obeys LookupEvent.Follows log) {before after : List LookupEvent}
    {event : LookupEvent} {key : CacheKey} {a : key.table.Value} (hsplit : log = before ++ event :: after)
    (hfound : lastKept? key (before ++ [event]) = some a) (hmissed : ∀ m, event ≠ .missed m key)
    (hkept : .forgotten key.table key.kind ∉ after) :
    (∀ j, .missed j key ∉ after) ∧ ∀ mid rest j b, after = mid ++ .hit j key b :: rest →
      b = a ∨ ∃ m, .kept m key b ∈ mid ∧ .missed m key ∈ before := by
  have hlog (mid rest : List LookupEvent) (next : LookupEvent) (hafter : after = mid ++ next :: rest) :
      log = (before ++ event :: mid) ++ next :: rest := by
    rw [hsplit, hafter]
    simp
  have hthere (mid rest : List LookupEvent) (next : LookupEvent) (hafter : after = mid ++ next :: rest) :
      ∃ b, lastKept? key (before ++ event :: mid) = some b ∧ (b = a ∨ ∃ m, .kept m key b ∈ mid) := by
    have hmid : .forgotten key.table key.kind ∉ mid := fun hmem => hkept (hafter ▸ List.mem_append_left _ hmem)
    rw [← List.singleton_append, ← List.append_assoc, lastKept?_append, hfound]
    exact foldl_applyTo_some hmid
  have hnone (j : Nat) : .missed j key ∉ after := by
    intro hmem
    obtain ⟨mid, rest, hafter⟩ := List.append_of_mem hmem
    obtain ⟨b, hb, -⟩ := hthere mid rest _ hafter
    have hlaw : lastKept? key (before ++ event :: mid) = none := h _ _ _ (hlog mid rest _ hafter)
    rw [hb] at hlaw
    cases hlaw
  refine ⟨hnone, fun mid rest j b hafter => ?_⟩
  obtain ⟨b', hb', horigin⟩ := hthere mid rest _ hafter
  have hlaw : lastKept? key (before ++ event :: mid) = some b := h _ _ _ (hlog mid rest _ hafter)
  rw [hb'] at hlaw
  cases hlaw
  refine horigin.imp_right fun ⟨m, hm⟩ => ⟨m, hm, ?_⟩
  -- The lookup that has kept the answer had missed, and it cannot have missed since.
  obtain ⟨mid', rest', hmid⟩ := List.append_of_mem hm
  have hafter' : after = mid' ++ .kept m key b :: (rest' ++ .hit j key b :: rest) := by
    rw [hafter, hmid]
    simp
  have hmem : .missed m key ∈ before ++ event :: mid' := (h _ _ _ (hlog mid' _ _ hafter')).1
  obtain hmem | hmem := List.mem_append.mp hmem
  · exact hmem
  · obtain heq | hmem := List.mem_cons.mp hmem
    · exact absurd heq.symm (hmissed m)
    · exact absurd (hafter' ▸ List.mem_append_left _ hmem) (hnone m)

/-- Nothing is found before something is kept. -/
private theorem Obeys.not_found (h : Obeys LookupEvent.Follows log) {before mid after : List LookupEvent}
    {key : CacheKey} (hsplit : log = before ++ (mid ++ after)) (habsent : lastKept? key before = none)
    (hkept : ∀ i a, .kept i key a ∉ mid) (i : Nat) (a : key.table.Value) : .hit i key a ∉ mid := by
  intro hmem
  obtain ⟨mid', rest, rfl⟩ := List.append_of_mem hmem
  have hlaw : lastKept? key (before ++ mid') = some a :=
    h (before ++ mid') (.hit i key a) (rest ++ after) (by rw [hsplit]; simp)
  rw [lastKept?_append, habsent, foldl_applyTo_none fun j b hj => hkept j b (List.mem_append_left _ hj)] at hlaw
  cases hlaw

end Accounts

/-- The move concerns the kind, given the keys of the lookups. -/
def LookupMove.concerns {σ : Type} (keys : List CacheKey) (kind : ReferenceKind) : LookupMove σ → Bool
  | .step i _ => keys[i]?.any fun key => key.kind = kind
  | .forget _ other => other = kind
  | .drop key => key.kind = kind

section Kinds

variable {σ : Type} {service : ReferenceLookup σ} {x x' y y' : LookupPool} {m : LookupMove σ}
  {log evs evs' : List LookupEvent} {keys : List CacheKey} {kind : ReferenceKind}

/-- Two pools of the same lookups that differ in other kinds only. -/
private structure Alike (keys : List CacheKey) (kind : ReferenceKind) (x y : LookupPool) : Prop where
  sameKeys : x.lookups.map (·.key) = keys ∧ y.lookups.map (·.key) = keys
  lookups : ∀ (i : Nat) (key : CacheKey), keys[i]? = some key → key.kind = kind → x.lookups[i]? = y.lookups[i]?
  entries : ∀ key : CacheKey, key.kind = kind → x.cache.kept? key = y.cache.kept? key

private theorem Alike.symm (h : Alike keys kind x y) : Alike keys kind y x where
  sameKeys := h.sameKeys.symm
  lookups i key hi hkey := (h.lookups i key hi hkey).symm
  entries key hkey := (h.entries key hkey).symm

private theorem getElem?_keys (hkeys : x.lookups.map (·.key) = keys) {i : Nat} {l : Lookup}
    (there : x.lookups[i]? = some l) : keys[i]? = some l.key := by
  rw [← hkeys, List.getElem?_map, there]
  rfl

private theorem map_key_after {i : Nat} {l l' : Lookup} (there : x.lookups[i]? = some l) (hkey : l'.key = l.key) :
    (x.lookups.set i l').map (·.key) = x.lookups.map (·.key) := by
  obtain ⟨hlt, hsame⟩ := List.getElem?_eq_some_iff.mp (getElem?_keys rfl there)
  rw [List.map_set, hkey, ← hsame, List.set_getElem_self]

private theorem LookupEvent.applyTo_of_ne {event : LookupEvent} {key : CacheKey} (h : event.kind ≠ key.kind)
    (entry : Option key.table.Value) : event.applyTo key entry = entry := by
  cases event with
  | kept i other a =>
    refine dif_neg ?_
    rintro rfl
    exact h rfl
  | forgotten table kind => exact if_neg fun hsame => h hsame.2.symm
  | _ => rfl

private theorem foldl_applyTo_of_ne {key : CacheKey} (h : evs.filter (·.kind = key.kind) = [])
    (entry : Option key.table.Value) : evs.foldl (LookupEvent.applyTo key) entry = entry := by
  induction evs generalizing entry with
  | nil => rfl
  | cons event rest ih =>
    rw [List.filter_cons] at h
    split at h
    · cases h
    · rename_i hne
      rw [List.foldl_cons, LookupEvent.applyTo_of_ne (by simpa using hne)]
      exact ih h entry

private theorem Lookup.Change.kind_eq {i : Nat} {l l' : Lookup} {c c' : ReferenceCache} {w : σ} {event : LookupEvent}
    (h : Lookup.Change service i l l' c c' w event) : event.kind = l.key.kind := by
  cases h <;> rfl

/-- A move for another kind. -/
private theorem Alike.aside (h : Alike keys kind x y) (hmove : m.concerns keys kind = false)
    (hplay : x.playWithRoom? service m = some (evs, x')) :
    Alike keys kind x' y ∧ evs.filter (·.kind = kind) = [] := by
  obtain ⟨hroom, hmove'⟩ := LookupPool.playWithRoom?_eq_some hplay
  have hchange := LookupPool.play_change hmove'
  have hquiet (hevs : evs.filter (·.kind = kind) = []) (key : CacheKey) (hkey : key.kind = kind) :
      x'.cache.kept? key = y.cache.kept? key := by
    subst hkey
    rw [LookupPool.kept?_after hroom hchange, foldl_applyTo_of_ne hevs, h.entries key rfl]
  cases hchange with
  | drop key => cases hroom
  | forget table other cache lookups =>
    have hne : other ≠ kind := by simpa [LookupMove.concerns] using hmove
    have hevs : [LookupEvent.forgotten table other].filter (·.kind = kind) = [] := by simp [LookupEvent.kind, hne]
    exact ⟨⟨by rw [lookups]; exact h.sameKeys, by rw [lookups]; exact h.lookups, hquiet hevs⟩, hevs⟩
  | step i w l l' event there step lookups =>
    have hstep := Lookup.step_change step
    have hi := getElem?_keys h.sameKeys.1 there
    have hne : l.key.kind ≠ kind := by simpa [LookupMove.concerns, hi] using hmove
    have hevs : [event].filter (·.kind = kind) = [] := by simpa [hstep.kind_eq] using hne
    refine ⟨⟨?_, ?_, hquiet hevs⟩, hevs⟩
    · rw [lookups, map_key_after there hstep.key_eq]
      exact h.sameKeys
    · intro j key hj hkey
      rw [LookupPool.lookups_after there lookups, if_neg]
      · exact h.lookups j key hj hkey
      · rintro rfl
        cases hi.symm.trans hj
        exact hne hkey

/-- A move for the kind, made in both pools. -/
private theorem Alike.together (h : Alike keys kind x y) (hmove : m.concerns keys kind = true)
    (hx : x.playWithRoom? service m = some (evs, x')) (hy : y.playWithRoom? service m = some (evs', y')) :
    Alike keys kind x' y' ∧ evs = evs' := by
  obtain ⟨hroom, hx⟩ := LookupPool.playWithRoom?_eq_some hx
  obtain ⟨hroom', hy⟩ := LookupPool.playWithRoom?_eq_some hy
  have hentries (hevs : evs = evs') (key : CacheKey) (hkey : key.kind = kind) :
      x'.cache.kept? key = y'.cache.kept? key := by
    rw [LookupPool.kept?_after hroom (LookupPool.play_change hx), h.entries key hkey, hevs,
      LookupPool.kept?_after hroom' (LookupPool.play_change hy)]
  cases LookupPool.play_change hx with
  | drop key => cases hroom
  | forget table other cache lookups =>
    cases hy
    exact ⟨⟨by rw [lookups]; exact h.sameKeys, by rw [lookups]; exact h.lookups, hentries rfl⟩, rfl⟩
  | step i w l l' event there step lookups =>
    have hi := getElem?_keys h.sameKeys.1 there
    have hkind : l.key.kind = kind := by simpa [LookupMove.concerns, hi] using hmove
    have there' : y.lookups[i]? = some l := by rw [← h.lookups i l.key hi hkind, there]
    cases LookupPool.play_change hy with
    | step _ _ q q' event' thereQ stepQ lookupsQ =>
      cases there'.symm.trans thereQ
      have hsame := Lookup.step?_congr service (h.entries l.key hkind) i w
      rw [step, stepQ] at hsame
      obtain ⟨rfl, rfl⟩ := Prod.mk.inj (Option.some.inj hsame)
      have hkey := (Lookup.step_change step).key_eq
      refine ⟨⟨?_, ?_, hentries rfl⟩, rfl⟩
      · rw [lookups, lookupsQ, map_key_after there hkey, map_key_after there' hkey]
        exact h.sameKeys
      · intro j key hj hkey
        rw [LookupPool.lookups_after there lookups, LookupPool.lookups_after there' lookupsQ, h.lookups j key hj hkey]

private theorem Alike.story_aside {moves : List (LookupMove σ)} (h : Alike keys kind x y)
    (hmoves : ∀ m ∈ moves, ¬ m.concerns keys kind = true)
    (hplay : story? (LookupPool.playWithRoom? service) x moves = some (log, x')) :
    Alike keys kind x' y ∧ log.filter (·.kind = kind) = [] := by
  induction moves generalizing x log with
  | nil =>
    cases hplay
    exact ⟨h, rfl⟩
  | cons m rest ih =>
    obtain ⟨now, z, later, hm, hrest, rfl⟩ := story?_cons_iff.mp hplay
    obtain ⟨hz, hnow⟩ := h.aside (Bool.eq_false_iff.mpr (hmoves m List.mem_cons_self)) hm
    obtain ⟨hx', hlater⟩ := ih hz (fun m' hm' => hmoves m' (List.mem_cons_of_mem _ hm')) hrest
    exact ⟨hx', by rw [List.filter_append, hnow, hlater, List.append_nil]⟩

/-- Two stories whose moves for the kind are the same. -/
private theorem Alike.story {moves moves' : List (LookupMove σ)} {log' : List LookupEvent} (h : Alike keys kind x y)
    (hmoves : moves'.filter (·.concerns keys kind) = moves.filter (·.concerns keys kind))
    (hx : story? (LookupPool.playWithRoom? service) x moves = some (log, x'))
    (hy : story? (LookupPool.playWithRoom? service) y moves' = some (log', y')) :
    Alike keys kind x' y' ∧ log'.filter (·.kind = kind) = log.filter (·.kind = kind) := by
  induction moves generalizing x y moves' log log' with
  | nil =>
    cases hx
    obtain ⟨hy', hlog'⟩ := h.symm.story_aside (List.filter_eq_nil_iff.mp hmoves) hy
    exact ⟨hy'.symm, hlog'⟩
  | cons m rest ih =>
    obtain ⟨now, x₁, later, hm, hrest, rfl⟩ := story?_cons_iff.mp hx
    rw [List.filter_append]
    cases hconcerns : m.concerns keys kind with
    | false =>
      rw [List.filter_cons, hconcerns, if_neg Bool.false_ne_true] at hmoves
      obtain ⟨hx₁, hnow⟩ := h.aside hconcerns hm
      obtain ⟨hx', hlog⟩ := ih hx₁ hmoves hrest hy
      exact ⟨hx', by rw [hnow, List.nil_append, hlog]⟩
    | true =>
      rw [List.filter_cons, hconcerns, if_pos rfl] at hmoves
      -- The other story makes moves for other kinds until it comes to the same one.
      obtain ⟨first, others, rfl, hfirst, -, hothers⟩ := List.filter_eq_cons_iff.mp hmoves
      obtain ⟨log₁, y₁, log₂, hlog₁, hlog₂, rfl⟩ := story?_append_iff.mp hy
      obtain ⟨now', y₂, later', hm', hrest', rfl⟩ := story?_cons_iff.mp hlog₂
      obtain ⟨hy₁, hquiet⟩ := h.symm.story_aside hfirst hlog₁
      obtain ⟨hx₂, rfl⟩ := hy₁.symm.together hconcerns hm hm'
      obtain ⟨hx', hlater⟩ := ih hx₂ hothers hrest hrest'
      exact ⟨hx', by rw [List.filter_append, List.filter_append, hquiet, List.nil_append, hlater]⟩

/-- What a story of lookups tells that began with this pool, left that one and was logged. -/
structure LookupPool.Tells (service : ReferenceLookup σ) (start : LookupPool) (moves : List (LookupMove σ))
    (log : List LookupEvent) (x : LookupPool) : Prop where
  hits : x.cache.hits = log.countP (·.isHit)
  misses : x.cache.misses = log.countP (·.isMiss)
  /-- Hits and misses count the lookups that have begun. -/
  begun : x.cache.lookups = x.lookups.countP (·.phase.hasBegun)
  /-- There is a call for every miss, as soon as the lookup has come to it. -/
  calls : log.countP (·.isCall) + x.lookups.countP (·.phase.isAsking) = x.cache.misses
  courses : ∀ i (l : Lookup), x.lookups[i]? = some l → l.Course i (log.filter (·.isOf i))
  stored : ∀ i key a, .kept i key a ∈ log → .asked i key (.ok a) ∈ log ∧ key.MayKeep a
  /-- After a success all lookups are hits until the kind is forgotten, and return the same answer unless a lookup that
  had missed before has kept another one since. -/
  found : ∀ before after i key a, log = before ++ .kept i key a :: after ∨ log = before ++ .hit i key a :: after →
    .forgotten key.table key.kind ∉ after → (∀ j, .missed j key ∉ after) ∧
      ∀ mid rest j b, after = mid ++ .hit j key b :: rest →
        b = a ∨ ∃ m, .kept m key b ∈ mid ∧ .missed m key ∈ before
  /-- Lookups that begin before anything is kept miss and call, each for itself. -/
  absent : ∀ before mid after key, log = before ++ (mid ++ after) → lastKept? key before = none →
    (∀ i a, .kept i key a ∉ mid) → ∀ i (l : Lookup), x.lookups[i]? = some l →
      (.missed i key ∈ mid ∨ ∃ a, .hit i key a ∈ mid) →
      .missed i key ∈ mid ∧ log.countP (fun e => e.isCall && e.isOf i) = if l.phase.isAsking then 0 else 1
  contents : ∀ key, x.cache.kept? key = lastKept? key log
  /-- A story whose moves are the same for a kind tells the same of it. -/
  kinds : ∀ kind moves' log' y,
    moves'.filter (·.concerns (start.lookups.map (·.key)) kind) = moves.filter (·.concerns (start.lookups.map (·.key)) kind) →
    story? (playWithRoom? service) start moves' = some (log', y) →
    log'.filter (·.kind = kind) = log.filter (·.kind = kind) ∧
      ∀ (i : Nat) (l : Lookup), start.lookups[i]? = some l → l.key.kind = kind → y.lookups[i]? = x.lookups[i]?

/-- Lookups begin at any time, and the steps of them and invalidations come in any order, while the service answers
whatever it does at the time: hits, misses and calls are accounted for. -/
theorem LookupPool.calls_accounted {defaultCapacity : Nat} {capacities : List (ReferenceKind × Nat)}
    {moves : List (LookupMove σ)}
    (hplay : story? (playWithRoom? service) (opened (.new defaultCapacity capacities none) keys) moves = some (log, x')) :
    Tells service (opened (.new defaultCapacity capacities none) keys) moves log x' := by
  have hempty : ∀ key, (ReferenceCache.new defaultCapacity capacities none).kept? key = none :=
    ReferenceCache.kept?_new defaultCapacity capacities none
  have haccounts : x'.Accounted ([] ++ log) := story_keeps (fun _ => True) (fun _ _ _ _ _ _ h hstep => h.play hstep)
    (fun _ _ => trivial) (Accounted.nil _ keys rfl rfl hempty) hplay
  rw [List.nil_append] at haccounts
  have hkeys : (opened (.new defaultCapacity capacities none) keys).lookups.map (·.key) = keys := by
    rw [opened, List.map_map]
    exact List.map_id keys
  refine ⟨haccounts.hits, haccounts.misses, haccounts.begun, haccounts.calls, haccounts.courses, ?_, ?_, ?_,
    haccounts.contents, ?_⟩
  · intro i key a hmem
    obtain ⟨before, after, rfl⟩ := List.append_of_mem hmem
    obtain ⟨-, hasked, hmay⟩ := haccounts.obeys before _ after rfl
    exact ⟨List.mem_append_left _ hasked, hmay⟩
  · rintro before after i key a (hsplit | hsplit) hkept
    · refine haccounts.obeys.found_later hsplit ?_ (by simp) hkept
      rw [lastKept?_append]
      exact LookupEvent.applyTo_kept key _ i a
    · refine haccounts.obeys.found_later hsplit ?_ (by simp) hkept
      rw [lastKept?_append]
      exact haccounts.obeys before _ after hsplit
  · intro before mid after key hsplit habsent hkept i l hl hprobed
    have hmissed : .missed i key ∈ mid := by
      refine hprobed.resolve_right ?_
      rintro ⟨a, ha⟩
      exact haccounts.obeys.not_found hsplit habsent hkept i a ha
    have hmem : .missed i key ∈ log.filter (·.isOf i) :=
      List.mem_filter.mpr ⟨by rw [hsplit]; simp [hmissed], beq_self_eq_true i⟩
    exact ⟨hmissed, by rw [← List.countP_filter]; exact (haccounts.courses i l hl).calls hmem⟩
  · intro kind moves' log' y hmoves hplay'
    rw [hkeys] at hmoves
    have hopen : Alike keys kind (opened (.new defaultCapacity capacities none) keys)
        (opened (.new defaultCapacity capacities none) keys) := ⟨⟨hkeys, hkeys⟩, fun _ _ _ _ => rfl, fun _ _ => rfl⟩
    obtain ⟨halike, hlog⟩ := hopen.story hmoves hplay hplay'
    exact ⟨hlog, fun i l hi hkey => (halike.lookups i l.key (getElem?_keys hkeys hi) hkey).symm⟩

end Kinds

namespace ChangingService

def order : CacheKey := ⟨.ids, .materialType, "1"⟩

/-- The service answers with what it has at the time; what it does not have is not found. -/
def service : ReferenceLookup (List Json) where
  byId kind id := .ofStep fun w => (match w with | entity :: _ => .ok entity | [] => .error (.notFound kind.label id), w)
  byQuery _ _ := .ofStep fun w => (.ok w, w)

/-- Two overlapping lookups get different answers, and a third one comes when the service has nothing to answer. -/
def moves : List (LookupMove (List Json)) :=
  [.step 0 [], .step 1 [], .step 0 [.string "book"], .step 1 [.string "old book"], .step 1 [], .step 0 [], .step 2 []]

/-- The first lookup keeps its answer after the second one has kept an older one. -/
def told : List LookupEvent :=
  [.missed 0 order, .missed 1 order, .asked 0 order (.ok (.string "book")), .asked 1 order (.ok (.string "old book")),
    .kept 1 order (.string "old book"), .kept 0 order (.string "book"), .hit 2 order (.string "book")]

/-- Both misses are calls, and the third lookup finds what was kept last. -/
theorem last_answer_is_kept : ∃ x,
    story? (LookupPool.playWithRoom? service) (.opened (.new 1 [] none) [order, order, order]) moves = some (told, x) ∧
      x.cache.hits = 1 ∧ x.cache.misses = 2 ∧ x.cache.kept? order = some (.string "book") := by
  have hplayed : (story? (LookupPool.playWithRoom? service) (.opened (.new 1 [] none) [order, order, order]) moves).map
      (·.1) = some told := by rfl
  obtain ⟨⟨_, x⟩, hplay, rfl⟩ := Option.map_eq_some_iff.mp hplayed
  have htells := LookupPool.calls_accounted hplay
  exact ⟨x, hplay, htells.hits, htells.misses, htells.contents order⟩

/-- After the second lookup has succeeded, the third one is a hit with another answer, although nothing was forgotten. And
an answer that is empty is kept, under an id. -/
theorem later_hit_has_other_answer :
    (∃ x, story? (LookupPool.playWithRoom? service) (.opened (.new 1 [] none) [order, order, order]) moves = some (told, x)) ∧
    told = told.take 4 ++ .kept 1 order (.string "old book") :: [.kept 0 order (.string "book")] ++
      [.hit 2 order (.string "book")] ∧
    ∃ x, story? (LookupPool.playWithRoom? service) (.opened (.new 1 [] none) [order, order])
      [.step 0 [], .step 0 [.array []], .step 0 [], .step 1 []] =
        some ([.missed 0 order, .asked 0 order (.ok (.array [])), .kept 0 order (.array []), .hit 1 order (.array [])], x) :=
  ⟨⟨_, rfl⟩, rfl, _, rfl⟩

end ChangingService
end BatchExport
