import BatchExport.Paging.CursorSource
import BatchExport.Proofs.Paging.Fetches
import Mathlib.Data.Finset.Card
import Mathlib.Logic.Relation

/-! The fetches of one pull, over pages that depend on the marker only. Main statement: a pull ends within as many fetches
as there are markers, unless the empty pages lead back to a marker of the same pull; then it never ends. -/
namespace BatchExport

variable {σ ρ : Type}

/-- Every marker has one page, which does not change. -/
def Fetch.AnswersByMarker (fetch : Fetch σ ρ) (pages : String → Page ρ) : Prop :=
  ∀ request marker w, request.position = .cursor marker →
    ∃ w', (fetch request).run w = some (.ok (pages marker), w')

namespace CursorSource

variable {fetch : Fetch σ ρ} {pages : String → Page ρ} {s s' : CursorSource ρ} {w w' : σ} {fuel : Nat}
  {marker : String} {page : Page ρ}

/-- Whether a pull has to fetch. -/
def GoesOn (s : CursorSource ρ) : Prop := s.buffer = [] ∧ s.state ≠ .exhausted ∧ s.mark ≠ none

theorem accept_goesOn (hstate : s.state ≠ .exhausted) (marker : String) (page : Page ρ) :
    (s.accept marker page).GoesOn ↔ page.records = [] ∧ ∃ next, page.next = some next ∧ next ≠ marker := by
  rw [accept]
  dsimp only
  split
  · -- The page names the marker that was just asked for.
    rename_i hsame
    rw [Bool.and_eq_true, beq_iff_eq] at hsame
    constructor
    · intro ⟨_, hgoing, _⟩
      exact absurd rfl hgoing
    · intro ⟨_, next, hnext, hother⟩
      rw [hsame.2, Option.some.injEq] at hnext
      exact absurd hnext.symm hother
  · rename_i hsame
    constructor
    · intro ⟨hrecords, _, hmark⟩
      obtain ⟨next, hnext⟩ := Option.ne_none_iff_exists'.mp hmark
      refine ⟨hrecords, next, hnext, ?_⟩
      intro hmarker
      apply hsame
      dsimp only at hrecords hnext
      rw [hrecords, hnext, hmarker, beq_self_eq_true]
      rfl
    · intro ⟨hrecords, next, hnext, _⟩
      refine ⟨hrecords, hstate, ?_⟩
      dsimp only
      rw [hnext]
      exact Option.some_ne_none next

private theorem goesOn_iff : s.GoesOn ↔ ¬(!s.buffer.isEmpty || s.state == .exhausted) = true ∧ s.mark ≠ none := by
  simp [GoesOn, and_assoc]

/-- A pull that needs no fetch at most finds out that nothing follows. -/
theorem go_rests (fetch : Fetch σ ρ) (h : ¬s.GoesOn) (fuel : Nat) (w : σ) :
    ∃ state, fill.go fetch fuel s w = some (.ok (), { s with state }, w) ∧ (state = s.state ∨ state = .exhausted) := by
  unfold fill.go
  split
  · exact ⟨s.state, rfl, .inl rfl⟩
  · rename_i hopen
    have hmark : s.mark = none := by
      by_contra hmark
      exact h (goesOn_iff.mpr ⟨hopen, hmark⟩)
    rw [hmark]
    exact ⟨.exhausted, rfl, .inr rfl⟩

theorem go_zero (h : s.GoesOn) : fill.go fetch 0 s w = none := by
  obtain ⟨hopen, hmark⟩ := goesOn_iff.mp h
  obtain ⟨marker, hmarker⟩ := Option.ne_none_iff_exists'.mp hmark
  unfold fill.go
  rw [if_neg hopen, hmarker]

theorem go_succ (h : s.GoesOn) (hmark : s.mark = some marker) :
    fill.go fetch (fuel + 1) s w = ((fetch (s.request marker)).run w).bind fun
      | (.error f, w) => some (.error f, s.abort marker f, w)
      | (.ok page, w) => fill.go fetch fuel (s.accept marker page) w := by
  conv_lhs => unfold fill.go
  rw [if_neg (goesOn_iff.mp h).1, hmark]
  dsimp only
  cases (fetch (s.request marker)).run w with
  | none => rfl
  | some answer =>
    obtain ⟨answer, w'⟩ := answer
    cases answer <;> rfl

/-- How a pull goes about its next fetch. -/
inductive Round (fetch : Fetch σ ρ) (s : CursorSource ρ) (w : σ) (r : Except Failure Unit) (s' : CursorSource ρ) (w' : σ) :
    Nat → Prop
  /-- It needs none. -/
  | rests {fuel : Nat} (settled : ¬s.GoesOn) (world : w' = w) : Round fetch s w r s' w' fuel
  | fails {fuel : Nat} {marker : String} {f : Failure} (goes : s.GoesOn)
      (fetched : (fetch (s.request marker)).run w = some (.error f, w')) : Round fetch s w r s' w' (fuel + 1)
  | accepts {fuel : Nat} {marker : String} {page : Page ρ} {w₁ : σ} (goes : s.GoesOn)
      (fetched : (fetch (s.request marker)).run w = some (.ok page, w₁))
      (rest : fill.go fetch fuel (s.accept marker page) w₁ = some (r, s', w')) : Round fetch s w r s' w' (fuel + 1)

theorem go_round {r : Except Failure Unit} (hrun : fill.go fetch fuel s w = some (r, s', w')) :
    Round fetch s w r s' w' fuel := by
  by_cases hgoes : s.GoesOn
  · obtain ⟨marker, hmark⟩ := Option.ne_none_iff_exists'.mp hgoes.2.2
    cases fuel with
    | zero =>
      rw [go_zero hgoes] at hrun
      cases hrun
    | succ fuel =>
      rw [go_succ hgoes hmark] at hrun
      obtain ⟨⟨answer, w₁⟩, hfetched, hrest⟩ := Option.bind_eq_some_iff.mp hrun
      cases answer with
      | error f =>
        cases hrest
        exact .fails hgoes hfetched
      | ok page => exact .accepts hgoes hfetched hrest
  · obtain ⟨state, hrests, -⟩ := go_rests fetch hgoes fuel w
    rw [hrests] at hrun
    cases hrun
    exact .rests hgoes rfl

/-- The page of a marker names the next marker. -/
def Names (pages : String → Page ρ) (marker next : String) : Prop := (pages marker).next = some next

/-- The marker of the fetch after that of a marker, in the same pull. -/
def leadsTo? (pages : String → Page ρ) (marker : String) : Option String :=
  if (pages marker).records.isEmpty then (pages marker).next.filter (· ≠ marker) else none

/-- The markers of the fetches of one pull. -/
def trail (pages : String → Page ρ) (marker : String) : Nat → Option String
  | 0 => some marker
  | n + 1 => (trail pages marker n).bind (leadsTo? pages)

section Trail

theorem trail_add (m n : Nat) : trail pages marker (m + n) = (trail pages marker m).bind (trail pages · n) := by
  induction n with
  | zero => cases trail pages marker m <;> rfl
  | succ n ih =>
    rw [← Nat.add_assoc, trail, ih]
    cases trail pages marker m <;> rfl

theorem trail_succ (n : Nat) : trail pages marker (n + 1) = (leadsTo? pages marker).bind (trail pages · n) := by
  rw [Nat.add_comm, trail_add]
  rfl

theorem trail_none {m n : Nat} (h : trail pages marker m = none) (hle : m ≤ n) : trail pages marker n = none := by
  obtain ⟨k, rfl⟩ := Nat.exists_eq_add_of_le hle
  rw [trail_add, h]
  rfl

/-- A trail that comes back to a marker goes round for ever. -/
theorem trail_endless {i j : Nat} (hlt : i < j) (hback : trail pages marker i = trail pages marker j)
    (hmarker : trail pages marker i ≠ none) (n : Nat) : trail pages marker n ≠ none := by
  induction n using Nat.strongRecOn with
  | ind n ih =>
    intro hnone
    by_cases hn : n ≤ j
    · exact hmarker (hback.trans (trail_none hnone hn))
    · have hsame : trail pages marker n = trail pages marker (i + (n - j)) := by
        rw [trail_add, hback, ← trail_add]
        congr
        omega
      exact ih (i + (n - j)) (by omega) (hsame.symm.trans hnone)

theorem reachable_trail {n : Nat} {last : String} (h : trail pages marker n = some last) :
    Relation.ReflTransGen (Names pages) marker last := by
  induction n generalizing last with
  | zero =>
    cases h
    exact .refl
  | succ n ih =>
    obtain ⟨before, hbefore, hleads⟩ := Option.bind_eq_some_iff.mp h
    refine (ih hbefore).tail ?_
    rw [leadsTo?] at hleads
    split at hleads
    · exact (Option.filter_eq_some_iff.mp hleads).1
    · cases hleads

/-- Among so many markers, a longer trail comes back to one of them. -/
theorem trail_comes_back {markers : Finset String}
    (hmarkers : ∀ last, Relation.ReflTransGen (Names pages) marker last → last ∈ markers)
    (hlong : trail pages marker markers.card ≠ none) :
    ∃ i j, i < j ∧ trail pages marker i = trail pages marker j ∧ trail pages marker i ≠ none := by
  have hsome (i : Nat) (hi : i ≤ markers.card) : ∃ last, trail pages marker i = some last :=
    Option.ne_none_iff_exists'.mp fun hnone => hlong (trail_none hnone hi)
  let visited (i : Nat) : String := (trail pages marker i).getD marker
  have hvisited : ∀ i ∈ Finset.range (markers.card + 1), visited i ∈ markers := by
    intro i hi
    obtain ⟨last, hlast⟩ := hsome i (Nat.le_of_lt_succ (Finset.mem_range.mp hi))
    have hi : visited i = last := by simp only [visited, hlast, Option.getD_some]
    rw [hi]
    exact hmarkers last (reachable_trail hlast)
  have hmore : markers.card < (Finset.range (markers.card + 1)).card := by simp
  obtain ⟨i, hi, j, hj, hne, hsame⟩ := Finset.exists_ne_map_eq_of_card_lt_of_maps_to hmore hvisited
  obtain ⟨a, ha⟩ := hsome i (Nat.le_of_lt_succ (Finset.mem_range.mp hi))
  obtain ⟨b, hb⟩ := hsome j (Nat.le_of_lt_succ (Finset.mem_range.mp hj))
  have hab : trail pages marker i = trail pages marker j := by
    simp only [visited, ha, hb, Option.getD_some] at hsame
    rw [ha, hb, hsame]
  rcases Nat.lt_or_gt_of_ne hne with hlt | hlt
  · exact ⟨i, j, hlt, hab, by simp [ha]⟩
  · exact ⟨j, i, hlt, hab.symm, by simp [hb]⟩

end Trail

/-- The empty pages that a pull would have to pass lead back to a marker of the same pull. -/
def Circles (pages : String → Page ρ) (s : CursorSource ρ) : Prop :=
  s.GoesOn ∧ ∃ marker i j, s.mark = some marker ∧ i < j ∧ trail pages marker i = trail pages marker j ∧
    trail pages marker i ≠ none

section Pull

variable (hserver : fetch.AnswersByMarker pages)
include hserver

private theorem go_fetches (h : s.GoesOn) (hmark : s.mark = some marker) (fuel : Nat) (w : σ) :
    ∃ w', fill.go fetch (fuel + 1) s w = fill.go fetch fuel (s.accept marker (pages marker)) w' := by
  obtain ⟨w', hfetch⟩ := hserver (s.request marker) marker w rfl
  refine ⟨w', ?_⟩
  rw [go_succ h hmark, hfetch]
  rfl

omit hserver in
private theorem accept_leadsTo (hstate : s.state ≠ .exhausted) {next : String} (h : leadsTo? pages marker = some next) :
    (s.accept marker (pages marker)).GoesOn ∧ (s.accept marker (pages marker)).mark = some next := by
  rw [leadsTo?] at h
  split at h
  · obtain ⟨hnext, hother⟩ := Option.filter_eq_some_iff.mp h
    have hother : next ≠ marker := by simpa using hother
    refine ⟨(accept_goesOn hstate marker _).mpr ⟨List.isEmpty_iff.mp ‹_›, next, hnext, hother⟩, ?_⟩
    rw [accept, hnext]
    simp [hother]
  · cases h

omit hserver in
private theorem accept_rests (hstate : s.state ≠ .exhausted) (h : leadsTo? pages marker = none) :
    ¬(s.accept marker (pages marker)).GoesOn := by
  intro hgoes
  obtain ⟨hrecords, next, hnext, hother⟩ := (accept_goesOn hstate marker _).mp hgoes
  simp [leadsTo?, hrecords, hnext, hother] at h

/-- So many fetches are enough exactly if the trail is over by then. -/
private theorem go_ends (h : s.GoesOn) (hmark : s.mark = some marker) (hend : trail pages marker fuel = none) (w : σ) :
    ∃ s' w', fill.go fetch fuel s w = some (.ok (), s', w') ∧ s'.fetches ≤ s.fetches + fuel := by
  induction fuel generalizing s marker w with
  | zero => cases hend
  | succ fuel ih =>
    obtain ⟨w₁, hfetched⟩ := go_fetches hserver h hmark fuel w
    have hcount : (s.accept marker (pages marker)).fetches = s.fetches + 1 := by
      rw [accept]
      split <;> rfl
    rw [hfetched]
    cases hleads : leadsTo? pages marker with
    | none =>
      obtain ⟨state, hrests, -⟩ := go_rests fetch (accept_rests h.2.1 hleads) fuel w₁
      exact ⟨_, _, hrests, by dsimp only; omega⟩
    | some next =>
      rw [trail_succ, hleads] at hend
      obtain ⟨hgoes, hnext⟩ := accept_leadsTo h.2.1 hleads
      obtain ⟨s', w', hrun, hfetches⟩ := ih hgoes hnext hend w₁
      exact ⟨s', w', hrun, by omega⟩

private theorem go_never_ends (h : s.GoesOn) (hmark : s.mark = some marker) (hgoing : trail pages marker fuel ≠ none)
    (w : σ) : fill.go fetch fuel s w = none := by
  induction fuel generalizing s marker w with
  | zero => exact go_zero h
  | succ fuel ih =>
    obtain ⟨w₁, hfetched⟩ := go_fetches hserver h hmark fuel w
    rw [trail_succ] at hgoing
    obtain ⟨next, hleads⟩ : ∃ next, leadsTo? pages marker = some next := by
      cases hleads : leadsTo? pages marker with
      | none => exact absurd (by rw [hleads]; rfl) hgoing
      | some next => exact ⟨next, rfl⟩
    rw [hleads] at hgoing
    obtain ⟨hgoes, hnext⟩ := accept_leadsTo h.2.1 hleads
    rw [hfetched]
    exact ih hgoes hnext hgoing w₁

end Pull

/-- The states of a source between pulls. The world may change between them. -/
inductive Pulled (fetch : Fetch σ ρ) (start : CursorSource ρ) : CursorSource ρ → Prop
  | start : Pulled fetch start start
  | pull {s s' : CursorSource ρ} {fuel : Nat} {w w' : σ} {r : Except Failure (Option ρ)} (before : Pulled fetch start s)
      (run : (next fuel fetch).run (s, w) = some (r, s', w')) : Pulled fetch start s'

/-- No pull of such a source has failed, and its marker comes from the pages. -/
structure Follows (pages : String → Page ρ) (stop : String) (s : CursorSource ρ) : Prop where
  working : ∀ reason, s.state ≠ .aborted reason
  reachable : ∀ marker, s.mark = some marker → Relation.ReflTransGen (Names pages) stop marker

namespace Follows

variable {stop : String}

private theorem accept (h : s.Follows pages stop) (hmark : s.mark = some marker) :
    (s.accept marker (pages marker)).Follows pages stop := by
  rw [CursorSource.accept]
  dsimp only
  split
  · constructor
    · intro reason hstate
      cases hstate
    · intro next hnone
      cases hnone
  · refine ⟨h.working, ?_⟩
    intro next hnext
    exact (h.reachable marker hmark).tail hnext

private theorem rests (h : s.Follows pages stop) (hgoes : ¬s.GoesOn) {r : Except Failure Unit}
    (hrun : fill.go fetch fuel s w = some (r, s', w')) : s'.Follows pages stop ∧ r = .ok () := by
  obtain ⟨state, hrests, hstate⟩ := go_rests fetch hgoes fuel w
  rw [hrests] at hrun
  cases hrun
  refine ⟨⟨?_, h.reachable⟩, rfl⟩
  intro reason
  rcases hstate with rfl | rfl
  · exact h.working reason
  · simp

private theorem go (hserver : fetch.AnswersByMarker pages) (h : s.Follows pages stop) {r : Except Failure Unit}
    (hrun : fill.go fetch fuel s w = some (r, s', w')) : s'.Follows pages stop ∧ r = .ok () := by
  induction fuel generalizing s w with
  | zero =>
    by_cases hgoes : s.GoesOn
    · rw [go_zero hgoes] at hrun
      cases hrun
    · exact h.rests hgoes hrun
  | succ fuel ih =>
    by_cases hgoes : s.GoesOn
    · obtain ⟨marker, hmark⟩ := Option.ne_none_iff_exists'.mp hgoes.2.2
      obtain ⟨w₁, hfetched⟩ := go_fetches hserver hgoes hmark fuel w
      rw [hfetched] at hrun
      exact ih (h.accept hmark) hrun
    · exact h.rests hgoes hrun

private theorem next (hserver : fetch.AnswersByMarker pages) (h : s.Follows pages stop) {r : Except Failure (Option ρ)}
    (hrun : (CursorSource.next fuel fetch).run (s, w) = some (r, s', w')) : s'.Follows pages stop := by
  rw [CursorSource.next, Effect.run_ofRun] at hrun
  dsimp only at hrun
  split at hrun
  · cases hrun
    exact h
  · obtain ⟨⟨answer, s₁, w₁⟩, hfill, heq⟩ := Option.map_eq_some_iff.mp hrun
    obtain ⟨hfollows, rfl⟩ := h.go hserver hfill
    cases heq
    rw [pop]
    split
    · exact ⟨hfollows.working, hfollows.reachable⟩
    · refine ⟨?_, hfollows.reachable⟩
      intro reason hstate
      cases hstate

theorem pulled (hserver : fetch.AnswersByMarker pages) {label start : String} {pageSize : Nat}
    (h : Pulled fetch (new label pageSize start stop) s) : s.Follows pages stop := by
  induction h with
  | start =>
    constructor
    · intro reason hstate
      cases hstate
    · intro marker hmark
      cases hmark
      exact .refl
  | pull before run ih => exact ih.next hserver run

end Follows

/-- A pull from a source that has not ended or failed fills the buffer first. -/
theorem next_of_fill (hstate : s.state = .active) (fuel : Nat) (w : σ) :
    (next fuel fetch).run (s, w) = (fill.go fetch fuel s w).map fun
      | (.ok (), s, w) => (.ok s.pop.1, s.pop.2, w)
      | (.error f, s, w) => (.error f, s, w) := by
  rw [next, Effect.run_ofRun]
  dsimp only
  rw [hstate]
  rfl

/-- Over pages that depend on the marker only, and whatever the pulls before: a pull returns within as many fetches as
markers can come up, unless the empty pages circle; then it returns never. -/
theorem pull_returns_unless_circling (hserver : fetch.AnswersByMarker pages) {label start stop : String} {pageSize : Nat}
    {markers : Finset String} (hmarkers : ∀ marker, Relation.ReflTransGen (Names pages) stop marker → marker ∈ markers)
    (hpulled : Pulled fetch (new label pageSize start stop) s) (w : σ) :
    (¬s.Circles pages → ∃ record? s' w', (next markers.card fetch).run (s, w) = some (.ok record?, s', w') ∧
      s'.fetches ≤ s.fetches + markers.card) ∧
    (s.Circles pages → ∀ fuel, (next fuel fetch).run (s, w) = none) := by
  have hfollows := Follows.pulled hserver hpulled
  constructor
  · intro hcircles
    cases hstate : s.state with
    | aborted reason => exact absurd hstate (hfollows.working reason)
    | exhausted =>
      refine ⟨none, s, w, ?_, Nat.le_add_right _ _⟩
      rw [next, Effect.run_ofRun]
      dsimp only
      rw [hstate]
      rfl
    | active =>
      rw [next_of_fill hstate]
      by_cases hgoes : s.GoesOn
      · obtain ⟨marker, hmark⟩ := Option.ne_none_iff_exists'.mp hgoes.2.2
        have hend : trail pages marker markers.card = none := by
          by_contra hlong
          have hwithin : ∀ last, Relation.ReflTransGen (Names pages) marker last → last ∈ markers := fun last hlast =>
            hmarkers last ((hfollows.reachable marker hmark).trans hlast)
          obtain ⟨i, j, hback⟩ := trail_comes_back hwithin hlong
          exact hcircles ⟨hgoes, marker, i, j, hmark, hback⟩
        obtain ⟨s', w', hrun, hfetches⟩ := go_ends hserver hgoes hmark hend w
        have hpop : s'.pop.2.fetches = s'.fetches := by
          rw [pop]
          split <;> rfl
        rw [hrun]
        exact ⟨_, _, _, rfl, by rw [hpop]; exact hfetches⟩
      · obtain ⟨state, hrests, -⟩ := go_rests fetch hgoes markers.card w
        rw [hrests]
        refine ⟨_, _, _, rfl, ?_⟩
        rw [pop]
        split <;> exact Nat.le_add_right _ _
  · intro ⟨hgoes, marker, i, j, hmark, hlt, hback, hmarker⟩ fuel
    have hactive : s.state = .active := by
      cases hstate : s.state with
      | active => rfl
      | exhausted => exact absurd hstate hgoes.2.1
      | aborted reason => exact absurd hstate (hfollows.working reason)
    have hnever := go_never_ends hserver hgoes hmark (trail_endless hlt hback hmarker fuel) w
    rw [next_of_fill hactive, hnever]
    rfl

end CursorSource

namespace MarkerCircle
open CursorSource

/-- The server of such pages. -/
def fetch (pages : String → Page String) : Fetch Unit String := fun request =>
  match request.position with
  | .cursor marker => pure (pages marker)
  | .offset _ => pure ⟨[], none⟩

theorem answersByMarker (pages : String → Page String) : (fetch pages).AnswersByMarker pages := by
  intro request marker w hposition
  refine ⟨w, ?_⟩
  rw [fetch, hposition]
  rfl

private theorem reachable_closed {pages : String → Page String} {markers : Finset String} {stop : String}
    (hstop : stop ∈ markers) (hnames : ∀ marker ∈ markers, ∀ next, Names pages marker next → next ∈ markers)
    (marker : String) (h : Relation.ReflTransGen (Names pages) stop marker) : marker ∈ markers := by
  induction h with
  | refl => exact hstop
  | tail _ hnext ih => exact hnames _ ih _ hnext

/-- Two markers that name each other, without a record. -/
def empty (marker : String) : Page String := ⟨[], some (if marker = "c" then "b" else "c")⟩

/-- Each of the two markers differs from the one before it, so the pull fetches for ever. -/
theorem pull_never_returns : (fetch empty).AnswersByMarker empty ∧
    (∀ marker, Relation.ReflTransGen (Names empty) "c" marker → marker ∈ ({"b", "c"} : Finset String)) ∧
    ∀ fuel, (next fuel (fetch empty)).run (new "orders" 10 "a" "c", ()) = none := by
  refine ⟨answersByMarker empty, reachable_closed (by decide) ?_, ?_⟩
  · intro marker _ next hnext
    simp only [Names, empty, Option.some.injEq] at hnext
    subst hnext
    split <;> simp
  · intro fuel
    have hgoes : (new "orders" 10 "a" "c" : CursorSource String).GoesOn := ⟨rfl, by simp [new], by simp [new]⟩
    have hgoing : trail empty "c" fuel ≠ none := trail_endless (i := 0) (j := 2) (by omega) (by decide) (by decide) fuel
    rw [next_of_fill rfl, go_never_ends (answersByMarker empty) hgoes rfl hgoing ()]
    rfl

/-- The third marker has a record, and names the first one again. -/
def lap (marker : String) : Page String :=
  if marker = "d" then ⟨[], some "c"⟩ else if marker = "c" then ⟨[], some "b"⟩ else ⟨["r1"], some "d"⟩

private theorem lap_straight (s : CursorSource String) (hmark : s.mark = some "d") : ¬s.Circles lap := by
  intro ⟨_, marker, i, j, hmarker, hlt, hback, hsome⟩
  rw [hmark, Option.some.injEq] at hmarker
  subst hmarker
  have hover : trail lap "d" 3 = none := by decide
  have hj : j < 3 := by
    by_contra hj
    exact hsome (hback.trans (trail_none hover (by omega)))
  have hall : ∀ i < 3, ∀ j < 3, i < j → trail lap "d" i ≠ trail lap "d" j := by decide
  exact hall i (by omega) j hj hlt hback

/-- Markers may come up again in a later pull, which returns nevertheless. -/
theorem pull_returns_each_lap : ∃ s record? s' w', Pulled (fetch lap) (new "orders" 10 "a" "d") s ∧ s.fetches = 3 ∧
    s.mark = some "d" ∧ (next 3 (fetch lap)).run (s, ()) = some (.ok record?, s', w') ∧ s'.fetches ≤ s.fetches + 3 := by
  have hfirst : ∃ r s w, (next 3 (fetch lap)).run (new "orders" 10 "a" "d", ()) = some (r, s, w) ∧ s.fetches = 3 ∧
      s.mark = some "d" := ⟨_, _, _, rfl, rfl, rfl⟩
  obtain ⟨r, s, w, hrun, hfetches, hmark⟩ := hfirst
  have hpulled : Pulled (fetch lap) (new "orders" 10 "a" "d") s := .pull .start hrun
  have hmarkers : ∀ marker, Relation.ReflTransGen (Names lap) "d" marker → marker ∈ ({"b", "c", "d"} : Finset String) := by
    refine reachable_closed (by decide) ?_
    intro marker _ next hnext
    rw [Names, lap] at hnext
    split_ifs at hnext <;> cases hnext <;> decide
  obtain ⟨record?, s', w', hrun', hfetches'⟩ :=
    (pull_returns_unless_circling (answersByMarker lap) hmarkers hpulled w).1 (lap_straight s hmark)
  exact ⟨s, record?, s', w', hpulled, hfetches, hmark, hrun', hfetches'⟩

end MarkerCircle
end BatchExport
