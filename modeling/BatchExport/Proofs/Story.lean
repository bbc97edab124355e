/-! Stories: moves in some order, and the events that they tell. Main statements: what every move keeps is kept by every
story, and a law holds of a story if it holds of each event when that happens. -/
namespace BatchExport

variable {X M E : Type}

/-- An event among others and one more is that one, with nothing after it, or has it last after it. -/
theorem snoc_eq_split_iff {tr before after : List E} {last event : E} : tr ++ [last] = before ++ event :: after ↔
    (tr = before ∧ last = event ∧ after = []) ∨ ∃ more, tr = before ++ event :: more ∧ after = more ++ [last] := by
  constructor
  · intro hsplit
    obtain rfl | ⟨more, newest, rfl⟩ := List.eq_nil_or_concat after
    · obtain ⟨rfl, hlast⟩ := List.append_inj' hsplit rfl
      exact .inl ⟨rfl, List.singleton_inj.mp hlast, rfl⟩
    · rw [List.concat_eq_append, ← List.cons_append, ← List.append_assoc] at hsplit
      obtain ⟨rfl, hlast⟩ := List.append_inj' hsplit rfl
      exact .inr ⟨more, rfl, by rw [List.concat_eq_append, hlast]⟩
  · rintro (⟨rfl, rfl, rfl⟩ | ⟨more, rfl, rfl⟩)
    · rfl
    · rw [List.append_assoc, List.cons_append]

/-- Moves in the given order and what they tell; no answer if one of them cannot be made. -/
def story? (play? : X → M → Option (List E × X)) : X → List M → Option (List E × X)
  | x, [] => some ([], x)
  | x, m :: rest => (play? x m).bind fun (now, x) => (story? play? x rest).map fun (later, x) => (now ++ later, x)

section Story

variable {play? : X → M → Option (List E × X)} {x z : X} {m : M} {moves more : List M} {log : List E}

theorem story?_cons_iff : story? play? x (m :: moves) = some (log, z) ↔
    ∃ now y later, play? x m = some (now, y) ∧ story? play? y moves = some (later, z) ∧ log = now ++ later := by
  constructor
  · intro h
    obtain ⟨⟨now, y⟩, hm, hrest⟩ := Option.bind_eq_some_iff.mp h
    obtain ⟨⟨later, z⟩, hz, heq⟩ := Option.map_eq_some_iff.mp hrest
    cases heq
    exact ⟨now, y, later, hm, hz, rfl⟩
  · rintro ⟨now, y, later, hm, hz, rfl⟩
    exact Option.bind_eq_some_iff.mpr ⟨_, hm, Option.map_eq_some_iff.mpr ⟨_, hz, rfl⟩⟩

theorem story?_append_iff : story? play? x (moves ++ more) = some (log, z) ↔
    ∃ now y later, story? play? x moves = some (now, y) ∧ story? play? y more = some (later, z) ∧ log = now ++ later := by
  induction moves generalizing x log with
  | nil =>
    constructor
    · intro h
      exact ⟨[], x, log, rfl, h, rfl⟩
    · rintro ⟨now, y, later, hnil, hz, rfl⟩
      cases hnil
      exact hz
  | cons m rest ih =>
    rw [List.cons_append, story?_cons_iff]
    constructor
    · rintro ⟨first, y, log', hm, hrest, rfl⟩
      obtain ⟨now, y', later, hnow, hlater, rfl⟩ := ih.mp hrest
      exact ⟨first ++ now, y', later, story?_cons_iff.mpr ⟨first, y, now, hm, hnow, rfl⟩, hlater,
        (List.append_assoc _ _ _).symm⟩
    · rintro ⟨log', y', later, hnow, hlater, rfl⟩
      obtain ⟨first, y, now, hm, hrest, rfl⟩ := story?_cons_iff.mp hnow
      exact ⟨first, y, now ++ later, hm, ih.mpr ⟨now, y', later, hrest, hlater, rfl⟩, List.append_assoc _ _ _⟩

/-- What holds of a story and where it has led to holds on, if each move keeps it. -/
theorem story_keeps {Inv : List E → X → Prop} (allowed : M → Prop)
    (hstep : ∀ tr x m evs x', allowed m → Inv tr x → play? x m = some (evs, x') → Inv (tr ++ evs) x')
    (hmoves : ∀ m ∈ moves, allowed m) {tr : List E} (h : Inv tr x) {later : List E} {x' : X}
    (hplay : story? play? x moves = some (later, x')) : Inv (tr ++ later) x' := by
  induction moves generalizing tr x later with
  | nil =>
    cases hplay
    rwa [List.append_nil]
  | cons m rest ih =>
    obtain ⟨now, y, evs, hm, hrest, rfl⟩ := story?_cons_iff.mp hplay
    have hy := hstep tr x m now y (hmoves m List.mem_cons_self) h hm
    have hz := ih (fun m' hm' => hmoves m' (List.mem_cons_of_mem _ hm')) hy hrest
    rwa [List.append_assoc] at hz

/-- What each move keeps, whatever has been told. -/
theorem story_preserves {Inv : X → Prop} (hstep : ∀ x m evs x', Inv x → play? x m = some (evs, x') → Inv x') (h : Inv x)
    (hplay : story? play? x moves = some (log, z)) : Inv z := by
  induction moves generalizing x log with
  | nil =>
    cases hplay
    exact h
  | cons m rest ih =>
    obtain ⟨now, y, later, hm, hrest, -⟩ := story?_cons_iff.mp hplay
    exact ih (hstep x m now y h hm) hrest

/-- What some of the moves lower, and no move raises, bounds how many of those there are. -/
theorem story_lowers {Inv : X → Nat → Prop} {own : M → Bool} {n : Nat}
    (hstep : ∀ x m evs x' n, Inv x n → play? x m = some (evs, x') →
      ∃ n', Inv x' n' ∧ n' + (if own m then 1 else 0) ≤ n)
    (h : Inv x n) (hplay : story? play? x moves = some (log, z)) : ∃ n', Inv z n' ∧ n' + moves.countP own ≤ n := by
  induction moves generalizing x n log with
  | nil =>
    cases hplay
    exact ⟨n, h, Nat.le_refl _⟩
  | cons m rest ih =>
    obtain ⟨now, y, later, hm, hrest, -⟩ := story?_cons_iff.mp hplay
    obtain ⟨n₁, hy, hless⟩ := hstep x m now y n h hm
    obtain ⟨n', hz, hall⟩ := ih hy hrest
    refine ⟨n', hz, ?_⟩
    rw [List.countP_cons]
    omega

end Story

/-- Each event is as the law has it after those before it. -/
def Obeys (law : List E → E → Prop) (tr : List E) : Prop :=
  ∀ before event after, tr = before ++ event :: after → law before event

namespace Obeys

variable {law : List E → E → Prop} {tr evs : List E} {event : E}

theorem nil : Obeys law [] := by
  intro before event after hsplit
  simp at hsplit

theorem snoc_iff : Obeys law (tr ++ [event]) ↔ Obeys law tr ∧ law tr event := by
  constructor
  · intro h
    refine ⟨?_, h tr event [] rfl⟩
    intro before e after hsplit
    exact h before e (after ++ [event]) (snoc_eq_split_iff.mpr (.inr ⟨after, hsplit, rfl⟩))
  · rintro ⟨h, hevent⟩ before e after hsplit
    obtain ⟨rfl, rfl, rfl⟩ | ⟨more, htr, rfl⟩ := snoc_eq_split_iff.mp hsplit
    · exact hevent
    · exact h before e more htr

/-- Events that the law allows from now on. -/
theorem append_free (h : Obeys law tr) (hfree : ∀ e ∈ evs, ∀ more, law (tr ++ more) e) : Obeys law (tr ++ evs) := by
  induction evs generalizing tr with
  | nil => rwa [List.append_nil]
  | cons e evs ih =>
    have hnext : Obeys law (tr ++ [e]) := snoc_iff.mpr ⟨h, by simpa using hfree e List.mem_cons_self []⟩
    have hall := ih hnext fun e' he' more => by
      rw [List.append_assoc]
      exact hfree e' (List.mem_cons_of_mem e he') _
    rwa [List.append_assoc] at hall

/-- What the law does not allow from now on does not happen any more. -/
theorem not_mem_after {before after : List E} (h : Obeys law (before ++ after))
    (hnever : ∀ more, ¬ law (before ++ more) event) : event ∉ after := by
  intro hmem
  obtain ⟨more, rest, rfl⟩ := List.append_of_mem hmem
  exact hnever more (h (before ++ more) event rest (by simp))

end Obeys
end BatchExport
