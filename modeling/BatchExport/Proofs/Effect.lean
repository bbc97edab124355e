import BatchExport.Effect

/-! What computations do, step by step, and what holds after them. Main statements: equations for the
operations of a computation, and rules by which postconditions are put together. -/
namespace BatchExport.Effect

variable {σ τ α β : Type}

theorem run_get (s : σ) : (get : Effect σ σ).run s = some (.ok s, s) := rfl

theorem run_ofRun (f : σ → Option (Outcome σ α)) (s : σ) : (ofRun f).run s = f s := rfl

theorem run_ofStep (f : σ → Outcome σ α) (s : σ) : (ofStep f).run s = some (f s) := rfl

theorem run_ofChange (f : σ → α × σ) (s : σ) : (ofChange f).run s = some (.ok (f s).1, (f s).2) := rfl

theorem ok_of_toOption {ε : Type} {r : Except ε α} {a : α} (h : r.toOption = some a) : r = .ok a := by
  cases r with
  | error fault => cases h
  | ok b =>
    cases h
    rfl

/-- A run with an answer, as far as it can be computed. -/
theorem run_of_answer {e : Effect σ α} {s : σ} {a : α} (h : (e.run s).map (·.1.toOption) = some (some a)) :
    e.run s = some (.ok a, e.aftermath s) := by
  obtain ⟨⟨r, t⟩, hrun, hanswer⟩ := Option.map_eq_some_iff.mp h
  obtain rfl : r = .ok a := ok_of_toOption hanswer
  rw [aftermath, hrun]
  rfl

/-- A failure ends a sequence; what was changed before stays changed. -/
theorem run_bind (e : Effect σ α) (f : α → Effect σ β) (s : σ) :
    (e >>= f).run s = (e.run s).bind fun
      | (.ok a, s) => (f a).run s
      | (.error err, s) => some (.error err, s) := by
  change (ExceptT.bind e f) s = _
  unfold ExceptT.bind ExceptT.bindCont ExceptT.mk
  change StateT.bind (m := Option) _ _ s = _
  rw [StateT.bind, run]
  cases e s with
  | none => rfl
  | some p =>
    obtain ⟨r, t⟩ := p
    cases r <;> rfl

theorem run_map (f : α → β) (e : Effect σ α) (s : σ) :
    (f <$> e).run s = (e.run s).map fun (r, t) => (r.map f, t) := by
  change (ExceptT.map f e) s = _
  rw [ExceptT.map, ExceptT.mk]
  change StateT.bind (m := Option) _ _ s = _
  rw [StateT.bind, run]
  cases e s with
  | none => rfl
  | some p =>
    obtain ⟨r, t⟩ := p
    cases r <;> rfl

/-- A sequence that succeeds is made of parts that succeed. -/
theorem bind_ok {e : Effect σ α} {f : α → Effect σ β} {s t : σ} {b : β}
    (h : (e >>= f).run s = some (.ok b, t)) :
    ∃ a m, e.run s = some (.ok a, m) ∧ (f a).run m = some (.ok b, t) := by
  rw [run_bind] at h
  obtain ⟨⟨r, m⟩, he, hf⟩ := Option.bind_eq_some_iff.mp h
  cases r with
  | error err => cases hf
  | ok a => exact ⟨a, m, he, hf⟩

/-- A computation on a part leaves the rest as it is put back. -/
theorem onPart_some {get : τ → σ} {set : σ → τ → τ} {e : Effect σ α} {t t' : τ} {r : Except Failure α}
    (h : (e.onPart get set).run t = some (r, t')) : ∃ s, e.run (get t) = some (r, s) ∧ t' = set s t := by
  obtain ⟨⟨r', s⟩, he, heq⟩ := Option.map_eq_some_iff.mp h
  cases heq
  exact ⟨s, he, rfl⟩

theorem run_attempt {e : Effect σ α} {r : Except Failure α} {s t : σ} (h : e.run s = some (r, t)) :
    e.attempt.run s = some (.ok r, t) := by
  rw [attempt, run_ofRun, h]
  rfl

/-- So many times the same computation, unless it fails. -/
def times (e : Effect σ α) : Nat → Effect σ (List α)
  | 0 => pure []
  | n + 1 => do
    let earlier ← e.times n
    return earlier ++ [← e]

theorem run_times_succ {e : Effect σ α} {n : Nat} {earlier : List α} {a : α} {s t u : σ}
    (h : (e.times n).run s = some (.ok earlier, t)) (hlast : e.run t = some (.ok a, u)) :
    (e.times (n + 1)).run s = some (.ok (earlier ++ [a]), u) := by
  rw [times, run_bind, h, Option.bind_some]
  dsimp only
  rw [run_bind, hlast]
  rfl

/-- With enough fuel a computation gives this outcome. -/
def EndsWith (e : Nat → Effect σ α) (s : σ) (r : Except Failure α) (t : σ) : Prop :=
  ∃ enough, ∀ fuel ≥ enough, (e fuel).run s = some (r, t)

/-- No fuel is enough for a computation. -/
def NeverEnds (e : Nat → Effect σ α) (s : σ) : Prop := ∀ fuel, (e fuel).run s = none

/-- The outcome that a computation has with some fuel it has with more. -/
def Steady (e : Nat → Effect σ α) : Prop :=
  ∀ fuel more s p, fuel ≤ more → (e fuel).run s = some p → (e more).run s = some p

namespace Steady

variable {e : Nat → Effect σ α} {s t u : σ} {n : Nat} {earlier : List α} {a : α}

theorem attempt (h : Steady e) : Steady fun fuel => (e fuel).attempt := by
  intro fuel more s p hle hrun
  obtain ⟨⟨r, t⟩, hearlier, rfl⟩ := Option.map_eq_some_iff.mp hrun
  exact run_attempt (h fuel more s _ hle hearlier)

theorem bind {f : Nat → α → Effect σ β} (h : Steady e) (hf : ∀ a, Steady (f · a)) :
    Steady fun fuel => e fuel >>= f fuel := by
  intro fuel more s p hle hrun
  dsimp only at hrun ⊢
  rw [run_bind] at hrun ⊢
  obtain ⟨⟨r, t⟩, hearlier, hrest⟩ := Option.bind_eq_some_iff.mp hrun
  rw [h fuel more s _ hle hearlier, Option.bind_some]
  cases r with
  | error f => exact hrest
  | ok a => exact hf a fuel more t p hle hrest

theorem pure (a : α) : Steady fun _ => (Pure.pure a : Effect σ α) := fun _ _ _ _ _ hrun => hrun

theorem times (h : Steady e) (n : Nat) : Steady fun fuel => (e fuel).times n := by
  induction n with
  | zero => exact .pure []
  | succ n ih => exact ih.bind fun earlier => h.bind fun a => .pure (earlier ++ [a])

/-- A computation does not end if the last of its parts does not. -/
theorem neverEnds_times (h : Steady e) (hearlier : EndsWith (fun fuel => (e fuel).times n) s (.ok earlier) t)
    (hlast : NeverEnds e t) : NeverEnds (fun fuel => (e fuel).times (n + 1)) s := by
  obtain ⟨enough, hearlier⟩ := hearlier
  intro fuel
  have hnone : ((e (max fuel enough)).times (n + 1)).run s = none := by
    rw [Effect.times, run_bind, hearlier _ (Nat.le_max_right _ _), Option.bind_some]
    dsimp only
    rw [run_bind, hlast]
    rfl
  cases hrun : ((e fuel).times (n + 1)).run s with
  | none => rfl
  | some p => cases hnone.symm.trans (h.times (n + 1) fuel _ s p (Nat.le_max_left _ _) hrun)

end Steady

namespace EndsWith

variable {e : Nat → Effect σ α} {r : Except Failure α} {s t u : σ}

theorem attempt (h : EndsWith e s r t) : EndsWith (fun fuel => (e fuel).attempt) s (.ok r) t := by
  obtain ⟨enough, hrun⟩ := h
  exact ⟨enough, fun fuel hfuel => run_attempt (hrun fuel hfuel)⟩

theorem times {n : Nat} {earlier : List α} {a : α}
    (h : EndsWith (fun fuel => (e fuel).times n) s (.ok earlier) t) (hlast : EndsWith e t (.ok a) u) :
    EndsWith (fun fuel => (e fuel).times (n + 1)) s (.ok (earlier ++ [a])) u := by
  obtain ⟨enough, hearlier⟩ := h
  obtain ⟨more, hlast⟩ := hlast
  exact ⟨max enough more, fun fuel hfuel =>
    run_times_succ (hearlier fuel (Nat.le_trans (Nat.le_max_left _ _) hfuel))
      (hlast fuel (Nat.le_trans (Nat.le_max_right _ _) hfuel))⟩

theorem not_neverEnds (h : EndsWith e s r t) : ¬ NeverEnds e s := by
  intro hnone
  obtain ⟨enough, hrun⟩ := h
  cases (hrun enough (Nat.le_refl _)).symm.trans (hnone enough)

end EndsWith

namespace NeverEnds

variable {e : Nat → Effect σ α} {s : σ}

theorem attempt (h : NeverEnds e s) : NeverEnds (fun fuel => (e fuel).attempt) s := by
  intro fuel
  dsimp only
  rw [Effect.attempt, run_ofRun, h fuel]
  rfl

/-- Nothing comes after a computation that does not end. -/
theorem times {n : Nat} (h : NeverEnds (fun fuel => (e fuel).times n) s) :
    NeverEnds (fun fuel => (e fuel).times (n + 1)) s := by
  intro fuel
  dsimp only
  rw [Effect.times, run_bind, h fuel]
  rfl

end NeverEnds

/-- Whatever a computation answers from a state, the answer and the state after it are as required. -/
def Ensures (e : Effect σ α) (s : σ) (post : Except Failure α → σ → Prop) : Prop :=
  ∀ r t, e.run s = some (r, t) → post r t

namespace Ensures

variable {e : Effect σ α} {s : σ} {post mid : Except Failure α → σ → Prop}

theorem mono (h : e.Ensures s mid) (hpost : ∀ r t, mid r t → post r t) : e.Ensures s post :=
  fun r t he => hpost r t (h r t he)

theorem pure {a : α} (h : post (.ok a) s) : (Pure.pure a : Effect σ α).Ensures s post := by
  intro r t he
  cases he
  exact h

theorem throw {f : Failure} (h : post (.error f) s) : (throw f : Effect σ α).Ensures s post := by
  intro r t he
  cases he
  exact h

theorem ofChange {f : σ → α × σ} (h : post (.ok (f s).1) (f s).2) : (Effect.ofChange f).Ensures s post := by
  intro r t he
  cases he
  exact h

theorem ofStep {f : σ → Outcome σ α} (h : post (f s).1 (f s).2) : (Effect.ofStep f).Ensures s post := by
  intro r t he
  rw [run_ofStep, Option.some.injEq] at he
  rw [he] at h
  exact h

theorem bind {f : α → Effect σ β} {post : Except Failure β → σ → Prop} (h : e.Ensures s mid)
    (hok : ∀ a t, mid (.ok a) t → (f a).Ensures t post)
    (herror : ∀ err t, mid (.error err) t → post (.error err) t) : (e >>= f).Ensures s post := by
  intro r t he
  rw [run_bind] at he
  obtain ⟨⟨r', m⟩, hm, hr⟩ := Option.bind_eq_some_iff.mp he
  have hmid := h r' m hm
  cases r' with
  | ok a => exact hok a m hmid r t hr
  | error err =>
    cases hr
    exact herror err t hmid

theorem onPart {get : τ → σ} {set : σ → τ → τ} {t : τ} {post : Except Failure α → τ → Prop}
    (h : e.Ensures (get t) fun r s => post r (set s t)) : (e.onPart get set).Ensures t post := by
  intro r t' he
  obtain ⟨s, hs, rfl⟩ := onPart_some he
  exact h r s hs

theorem attempt {post : Except Failure (Except Failure α) → σ → Prop}
    (h : e.Ensures s fun r t => post (.ok r) t) : e.attempt.Ensures s post := by
  intro r t he
  obtain ⟨⟨r', t'⟩, hr, heq⟩ := Option.map_eq_some_iff.mp he
  cases heq
  exact h r' t hr

theorem mapFailure {f : Failure → Failure} (h : e.Ensures s fun r t => post (r.mapError f) t) :
    (e.mapFailure f).Ensures s post := by
  intro r t he
  obtain ⟨⟨r', t'⟩, hr, heq⟩ := Option.map_eq_some_iff.mp he
  cases heq
  exact h r' t hr

theorem map {f : α → β} {post : Except Failure β → σ → Prop} (h : e.Ensures s fun r t => post (r.map f) t) :
    (f <$> e).Ensures s post := by
  intro r t he
  rw [run_map] at he
  obtain ⟨⟨r', t'⟩, hr, heq⟩ := Option.map_eq_some_iff.mp he
  cases heq
  exact h r' t hr

end Ensures

/-- A relation that every run of a computation keeps between the state before and the state after it. -/
def Keeps (e : Effect σ α) (rel : σ → σ → Prop) : Prop := ∀ s, e.Ensures s fun _ t => rel s t

namespace Keeps

variable {e : Effect σ α} {rel : σ → σ → Prop}

theorem pure (hrefl : ∀ s, rel s s) (a : α) : (Pure.pure a : Effect σ α).Keeps rel := fun s => .pure (hrefl s)

theorem throw (hrefl : ∀ s, rel s s) (f : Failure) : (throw f : Effect σ α).Keeps rel := fun s => .throw (hrefl s)

theorem bind {f : α → Effect σ β} (htrans : ∀ {a b c}, rel a b → rel b c → rel a c) (h : e.Keeps rel)
    (hf : ∀ a, (f a).Keeps rel) : (e >>= f).Keeps rel := fun s =>
  .bind (h s) (fun a t hst => (hf a t).mono fun _ _ htu => htrans hst htu) fun _ _ hst => hst

theorem onPart {get : τ → σ} {set : σ → τ → τ} {big : τ → τ → Prop} (h : e.Keeps rel)
    (hset : ∀ t s, rel (get t) s → big t (set s t)) : (e.onPart get set).Keeps big := fun t =>
  .onPart ((h (get t)).mono fun _ s hs => hset t s hs)

theorem attempt (h : e.Keeps rel) : e.attempt.Keeps rel := fun s => .attempt (h s)

theorem mapFailure {f : Failure → Failure} (h : e.Keeps rel) : (e.mapFailure f).Keeps rel := fun s => .mapFailure (h s)

theorem map {f : α → β} (h : e.Keeps rel) : (f <$> e).Keeps rel := fun s => .map (h s)

theorem aftermath (hrefl : ∀ s, rel s s) (h : e.Keeps rel) (s : σ) : rel s (e.aftermath s) := by
  rw [Effect.aftermath]
  cases he : e.run s with
  | none => exact hrefl s
  | some p => exact h s p.1 p.2 he

end Keeps

/-- A computation ends from a state, with such an answer and such a state. -/
def Returns (e : Effect σ α) (s : σ) (post : Except Failure α → σ → Prop) : Prop :=
  ∃ r t, e.run s = some (r, t) ∧ post r t

namespace Returns

variable {e : Effect σ α} {s : σ} {post mid : Except Failure α → σ → Prop}

theorem mono (h : e.Returns s mid) (hpost : ∀ r t, mid r t → post r t) : e.Returns s post := by
  obtain ⟨r, t, hrun, hmid⟩ := h
  exact ⟨r, t, hrun, hpost r t hmid⟩

theorem pure {a : α} (h : post (.ok a) s) : (Pure.pure a : Effect σ α).Returns s post := ⟨_, _, rfl, h⟩

theorem throw {f : Failure} (h : post (.error f) s) : (throw f : Effect σ α).Returns s post := ⟨_, _, rfl, h⟩

theorem ofChange {f : σ → α × σ} (h : post (.ok (f s).1) (f s).2) : (Effect.ofChange f).Returns s post := ⟨_, _, rfl, h⟩

theorem bind {f : α → Effect σ β} {post : Except Failure β → σ → Prop} (h : e.Returns s mid)
    (hok : ∀ a t, mid (.ok a) t → (f a).Returns t post)
    (herror : ∀ err t, mid (.error err) t → post (.error err) t) : (e >>= f).Returns s post := by
  obtain ⟨r, t, hrun, hmid⟩ := h
  rw [Returns, run_bind, hrun, Option.bind_some]
  cases r with
  | error err => exact ⟨_, _, rfl, herror err t hmid⟩
  | ok a => exact hok a t hmid

theorem onPart {get : τ → σ} {set : σ → τ → τ} {t : τ} {post : Except Failure α → τ → Prop}
    (h : e.Returns (get t) fun r s => post r (set s t)) : (e.onPart get set).Returns t post := by
  obtain ⟨r, s, hrun, hpost⟩ := h
  refine ⟨r, set s t, ?_, hpost⟩
  rw [Effect.onPart, run_ofRun, hrun]
  rfl

theorem attempt {post : Except Failure (Except Failure α) → σ → Prop}
    (h : e.Returns s fun r t => post (.ok r) t) : e.attempt.Returns s post := by
  obtain ⟨r, t, hrun, hpost⟩ := h
  refine ⟨.ok r, t, ?_, hpost⟩
  rw [Effect.attempt, run_ofRun, hrun]
  rfl

theorem mapFailure {f : Failure → Failure} (h : e.Returns s fun r t => post (r.mapError f) t) :
    (e.mapFailure f).Returns s post := by
  obtain ⟨r, t, hrun, hpost⟩ := h
  refine ⟨r.mapError f, t, ?_, hpost⟩
  rw [Effect.mapFailure, run_ofRun, hrun]
  rfl

theorem map {f : α → β} {post : Except Failure β → σ → Prop} (h : e.Returns s fun r t => post (r.map f) t) :
    (f <$> e).Returns s post := by
  obtain ⟨r, t, hrun, hpost⟩ := h
  refine ⟨r.map f, t, ?_, hpost⟩
  rw [run_map, hrun]
  rfl

end Returns

/-- Every run of a computation ends, and keeps a relation between the state before and the state after it. -/
def Ends (e : Effect σ α) (rel : σ → σ → Prop) : Prop := ∀ s, e.Returns s fun _ t => rel s t

namespace Ends

variable {e : Effect σ α} {rel : σ → σ → Prop}

theorem bind {f : α → Effect σ β} (htrans : ∀ {a b c}, rel a b → rel b c → rel a c) (h : e.Ends rel)
    (hf : ∀ a, (f a).Ends rel) : (e >>= f).Ends rel := fun s =>
  .bind (h s) (fun a t hst => (hf a t).mono fun _ _ htu => htrans hst htu) fun _ _ hst => hst

theorem ofStep {f : σ → Outcome σ α} (h : ∀ s, rel s (f s).2) : (Effect.ofStep f).Ends rel := fun s => ⟨_, _, rfl, h s⟩

theorem onPart {get : τ → σ} {set : σ → τ → τ} {big : τ → τ → Prop} (h : e.Ends rel)
    (hset : ∀ t s, rel (get t) s → big t (set s t)) : (e.onPart get set).Ends big := fun t =>
  .onPart ((h (get t)).mono fun _ s hs => hset t s hs)

theorem attempt (h : e.Ends rel) : e.attempt.Ends rel := fun s => .attempt (h s)

end Ends

/-- On a part of its state the one computation does what the other one does. -/
def Erases (part : τ → σ) (big : Effect τ α) (small : Effect σ α) : Prop :=
  ∀ t, (big.run t).map (fun (r, t) => (r, part t)) = small.run (part t)

namespace Erases

variable {part : τ → σ} {big : Effect τ α} {small : Effect σ α}

theorem pure (a : α) : Erases part (Pure.pure a) (Pure.pure a) := fun _ => rfl

theorem throw (f : Failure) : Erases part (throw f : Effect τ α) (throw f) := fun _ => rfl

theorem endless : Erases part (.ofRun fun _ => none : Effect τ α) (.ofRun fun _ => none) := fun _ => rfl

theorem bind {f : α → Effect τ β} {g : α → Effect σ β} (h : Erases part big small) (hf : ∀ a, Erases part (f a) (g a)) :
    Erases part (big >>= f) (small >>= g) := by
  intro t
  rw [run_bind, run_bind, ← h t]
  cases big.run t with
  | none => rfl
  | some p =>
    obtain ⟨r, t'⟩ := p
    cases r with
    | error err => rfl
    | ok a => exact hf a t'

theorem attempt (h : Erases part big small) : Erases part big.attempt small.attempt := by
  intro t
  unfold Effect.attempt
  rw [run_ofRun, run_ofRun, ← h t]
  cases big.run t <;> rfl

theorem mapFailure {f : Failure → Failure} (h : Erases part big small) :
    Erases part (big.mapFailure f) (small.mapFailure f) := by
  intro t
  unfold Effect.mapFailure
  rw [run_ofRun, run_ofRun, ← h t]
  cases big.run t <;> rfl

theorem map {f : α → β} (h : Erases part big small) : Erases part (f <$> big) (f <$> small) := by
  intro t
  rw [run_map, run_map, ← h t]
  cases big.run t <;> rfl

/-- What the smaller one does, the bigger one does too. -/
theorem run_of_run (h : Erases part big small) {t : τ} {r : Except Failure α} {s' : σ}
    (hrun : small.run (part t) = some (r, s')) : ∃ t', big.run t = some (r, t') ∧ part t' = s' := by
  rw [← h t] at hrun
  obtain ⟨⟨r', t'⟩, hbig, heq⟩ := Option.map_eq_some_iff.mp hrun
  cases heq
  exact ⟨t', hbig, rfl⟩

end Erases

/-- A computation whose answers are noted beside its state. -/
def noting (e : Effect σ α) (note : Except Failure α → τ → τ) : Effect (τ × σ) α :=
  .ofRun fun (notes, s) => (e.run s).map fun (r, s) => (r, note r notes, s)

theorem noting_erases (e : Effect σ α) (note : Except Failure α → τ → τ) : (e.noting note).Erases Prod.snd e := by
  intro t
  rw [noting, run_ofRun]
  dsimp only
  cases e.run t.2 <;> rfl

end BatchExport.Effect
