import BatchExport.Export.RecordSource
import BatchExport.Proofs.Job.Keeping
import BatchExport.Proofs.Paging.CursorSource
import BatchExport.Proofs.Paging.OffsetSource
import BatchExport.Proofs.Story

/-! The fetches of a step that is asked to stop. Main statement: a fetch begins after the request exactly if it goes on
after an empty page that names a new marker and that was in flight when the request came. -/
namespace BatchExport

variable {σ ρ ο : Type}

/-- The answer has no records, but names another marker to go on from. -/
def FetchRecord.LeadsOn (f : FetchRecord σ ρ) : Prop :=
  ∃ marker page next, f.request.position = .cursor marker ∧ f.answer = .ok page ∧ page.records = [] ∧
    page.next = some next ∧ next ≠ marker

namespace Fetch

variable {asked : σ → Bool} {log earlier later : List (FetchRecord σ ρ)} {f : FetchRecord σ ρ}

/-- It was asked to stop before a fetch exactly if the one before that leads on and returned after the request. -/
def Heeds (asked : σ → Bool) (log : List (FetchRecord σ ρ)) : Prop :=
  ∀ earlier f later, log = earlier ++ f :: later →
    (asked f.before = true ↔ ∃ e, earlier.getLast? = some e ∧ e.LeadsOn ∧ asked e.after = true)

/-- Nothing has to follow the last fetch. -/
def Settled (log : List (FetchRecord σ ρ)) : Prop := ∀ e, log.getLast? = some e → ¬e.LeadsOn

theorem Heeds.nil : Heeds asked ([] : List (FetchRecord σ ρ)) := Obeys.nil

theorem Heeds.append (h : Heeds asked log)
    (hlast : asked f.before = true ↔ ∃ e, log.getLast? = some e ∧ e.LeadsOn ∧ asked e.after = true) :
    Heeds asked (log ++ [f]) :=
  Obeys.snoc_iff.mpr ⟨h, hlast⟩

theorem Settled.append (log : List (FetchRecord σ ρ)) (h : ¬f.LeadsOn) : Settled (log ++ [f]) := by
  intro e he
  rw [List.getLast?_concat] at he
  cases he
  exact h

/-- After a settled log, a fetch that begins unasked heeds. -/
theorem Settled.unasked (h : Settled log) {w : σ} (hasked : asked w = false) :
    asked w = true ↔ ∃ e, log.getLast? = some e ∧ e.LeadsOn ∧ asked e.after = true := by
  constructor
  · intro hnow
    rw [hasked] at hnow
    cases hnow
  · intro ⟨e, he, hleads, _⟩
    exact absurd hleads (h e he)

end Fetch

namespace OffsetSource

variable {fetch : Fetch σ ρ} {s s' : OffsetSource ρ} {log log' : List (FetchRecord σ ρ)} {w w' : σ}
  {r : Except Failure (Option ρ)}

/-- A pull fetches at most once. -/
private theorem next_log (h : (next fetch.logged).run (s, log, w) = some (r, s', log', w')) :
    log' = log ∨ ∃ answer, log' = log ++ [⟨s.request, answer, w, w'⟩] := by
  cases next_turn h with
  | settled _ | full _ _ | buffered _ _ _ => exact .inl rfl
  | fails _ _ _ hfetched => exact .inr ⟨_, Fetch.logged_some hfetched⟩
  | accepts _ _ _ hfetched => exact .inr ⟨_, Fetch.logged_some hfetched⟩

end OffsetSource

namespace CursorSource

variable {asked : σ → Bool} {fetch : Fetch σ ρ} {s s' : CursorSource ρ} {log log' : List (FetchRecord σ ρ)} {w w' : σ}

private theorem accept_leadsOn (hstate : s.state ≠ .exhausted) (marker : String) (page : Page ρ) (w w' : σ) :
    (s.accept marker page).GoesOn ↔ FetchRecord.LeadsOn ⟨s.request marker, .ok page, w, w'⟩ := by
  rw [accept_goesOn hstate]
  constructor
  · intro ⟨hrecords, next, hnext, hother⟩
    exact ⟨marker, page, next, rfl, rfl, hrecords, hnext, hother⟩
  · intro ⟨marker', page', next, hposition, hanswer, hrecords, hnext, hother⟩
    cases hposition
    cases hanswer
    exact ⟨hrecords, next, hnext, hother⟩

/-- The fetches of one pull. All but the first follow a page that leads on. -/
private theorem go_heeds {fuel : Nat} {r : Except Failure Unit}
    (hrun : fill.go fetch.logged fuel s (log, w) = some (r, s', log', w')) (hlog : Fetch.Heeds asked log)
    (hgo : s.GoesOn → (asked w = true ↔ ∃ e, log.getLast? = some e ∧ e.LeadsOn ∧ asked e.after = true))
    (hend : ¬s.GoesOn → Fetch.Settled log) : Fetch.Heeds asked log' ∧ Fetch.Settled log' := by
  induction fuel generalizing s log w with
  | zero =>
    cases go_round hrun with
    | rests settled world =>
      cases world
      exact ⟨hlog, hend settled⟩
  | succ fuel ih =>
    cases go_round hrun with
    | rests settled world =>
      cases world
      exact ⟨hlog, hend settled⟩
    | fails goes fetched =>
      rw [Fetch.logged_some fetched]
      refine ⟨hlog.append (hgo goes), .append log ?_⟩
      intro ⟨_, _, _, _, hanswer, _⟩
      cases hanswer
    | @accepts _ marker page x goes fetched rest =>
      obtain ⟨log₁, w₁⟩ := x
      have hlog₁ := Fetch.logged_some fetched
      have hleads := accept_leadsOn goes.2.1 marker page w w₁
      refine ih rest ?_ ?_ ?_
      · rw [hlog₁]
        exact hlog.append (hgo goes)
      · intro hgoes
        rw [hlog₁, List.getLast?_concat]
        constructor
        · intro hasked
          exact ⟨_, rfl, hleads.mp hgoes, hasked⟩
        · intro ⟨e, he, _, hasked⟩
          cases he
          exact hasked
      · intro hgoes
        rw [hlog₁]
        exact .append log (mt hleads.mpr hgoes)

private theorem next_heeds {fuel : Nat} {r : Except Failure (Option ρ)}
    (hrun : (next fuel fetch.logged).run (s, log, w) = some (r, s', log', w')) (hlog : Fetch.Heeds asked log)
    (hsettled : Fetch.Settled log) (hasked : asked w = false) : Fetch.Heeds asked log' ∧ Fetch.Settled log' := by
  rw [next, Effect.run_ofRun] at hrun
  dsimp only at hrun
  split at hrun
  · cases hrun
    exact ⟨hlog, hsettled⟩
  · obtain ⟨⟨answer, s₁, log₁, w₁⟩, hfill, heq⟩ := Option.map_eq_some_iff.mp hrun
    have hfilled := go_heeds hfill hlog (fun _ => hsettled.unasked hasked) fun _ => hsettled
    cases answer <;> cases heq <;> exact hfilled

end CursorSource

namespace RecordSource

variable {asked : σ → Bool} {fetch : Fetch σ Json} {source source' : RecordSource} {log log' : List (FetchRecord σ Json)}
  {w w' : σ} {fuel : Nat} {r : Except Failure (Option Json)}

private theorem next_heeds (hrun : (next fuel fetch.logged).run (source, log, w) = some (r, source', log', w'))
    (hasked : asked w = false) (h : Fetch.Heeds asked log ∧ Fetch.Settled log) :
    Fetch.Heeds asked log' ∧ Fetch.Settled log' := by
  cases source with
  | offset s =>
    obtain ⟨⟨r₁, s₁, log₁, w₁⟩, hnext, heq⟩ := Option.map_eq_some_iff.mp hrun
    cases heq
    rcases OffsetSource.next_log hnext with rfl | ⟨answer, rfl⟩
    · exact h
    · constructor
      · exact h.1.append (h.2.unasked hasked)
      · apply Fetch.Settled.append
        intro ⟨_, _, _, hposition, _⟩
        cases hposition
  | cursor s =>
    obtain ⟨⟨r₁, s₁, log₁, w₁⟩, hnext, heq⟩ := Option.map_eq_some_iff.mp hrun
    cases heq
    exact CursorSource.next_heeds hnext h.1 h.2 hasked

/-- The source is read by offsets, and no fetch began after the request. -/
def Unasked (asked : σ → Bool) (source : RecordSource) (log : List (FetchRecord σ Json)) : Prop :=
  (∃ s, source = .offset s) ∧ ∀ f ∈ log, asked f.before = false

private theorem next_unasked (hrun : (next fuel fetch.logged).run (source, log, w) = some (r, source', log', w'))
    (hasked : asked w = false) (h : Unasked asked source log) : Unasked asked source' log' := by
  obtain ⟨⟨s, rfl⟩, hlog⟩ := h
  obtain ⟨⟨r₁, s₁, log₁, w₁⟩, hnext, heq⟩ := Option.map_eq_some_iff.mp hrun
  cases heq
  refine ⟨⟨s₁, rfl⟩, ?_⟩
  rcases OffsetSource.next_log hnext with rfl | ⟨answer, rfl⟩
  · exact hlog
  · intro f hf
    rcases List.mem_append.mp hf with hold | hnew
    · exact hlog f hold
    · cases List.mem_singleton.mp hnew
      exact hasked

end RecordSource

/-- The flow with its items pulled from a source, and with a log of the fetches for them. -/
def ItemFlow.reading (flow : ItemFlow σ Json ο) (fuel : Nat) (fetch : Fetch σ Json) :
    ItemFlow (RecordSource × List (FetchRecord σ Json) × σ) Json ο where
  stopRequested x := flow.stopRequested x.2.2
  next := RecordSource.next fuel fetch.logged
  process item := (flow.process item).onPart (·.2.2) fun w x => (x.1, x.2.1, w)
  write items := (flow.write items).onPart (·.2.2) fun w x => (x.1, x.2.1, w)
  writeSkipped f := (flow.writeSkipped f).onPart (·.2.2) fun w x => (x.1, x.2.1, w)
  close := flow.close.onPart (·.2.2) fun w x => (x.1, x.2.1, w)

/-- What pulls keep that are made where no stop is asked for is kept by a step. -/
private theorem ItemFlow.reading_keeps {flow : ItemFlow σ Json ο} {fuel : Nat} {fetch : Fetch σ Json}
    (inv : RecordSource → List (FetchRecord σ Json) → Prop)
    (hnext : ∀ {source log w r source' log' w'},
      (RecordSource.next fuel fetch.logged).run (source, log, w) = some (r, source', log', w') →
        flow.stopRequested w = false → inv source log → inv source' log') :
    (flow.reading fuel fetch).KeepsHeeding fun x x' => inv x.1 x.2.1 → inv x'.1 x'.2.1 := by
  have hrest {α : Type} (e : Effect σ α) :
      (e.onPart (·.2.2) fun w x => (x.1, x.2.1, w) : Effect (RecordSource × List (FetchRecord σ Json) × σ) α).Keeps
        fun x x' => inv x.1 x.2.1 → inv x'.1 x'.2.1 := by
    have hany : e.Keeps fun _ _ => True := fun _ _ _ _ => trivial
    exact .onPart hany fun _ _ _ h => h
  exact {
    next := fun _ hasked _ _ hrun => hnext hrun hasked
    process := fun item => hrest (flow.process item)
    write := fun items => hrest (flow.write items)
    writeSkipped := fun f => hrest (flow.writeSkipped f)
    close := hrest flow.close }

namespace ChunkStep

variable {flow : ItemFlow σ Json ο} {fetch : Fetch σ Json} {source source' : RecordSource} {name : String}
  {chunkSize room pages pulls : Nat} {now : Instant} {e e' : Execution} {log : List (FetchRecord σ Json)} {w w' : σ}
  {r : Except Failure Unit}

/-- Whatever a step works on and however it ends, a fetch begins after the request to stop exactly if it follows, in the
same pull, a page without records that names a new marker and that came after the request. An offset source has no such
pages. -/
theorem execute_fetches
    (hrun : (execute ⟨name, chunkSize, room, flow.reading pages fetch⟩ pulls now).run (e, source, [], w) =
      some (r, e', source', log, w')) :
    Fetch.Heeds flow.stopRequested log ∧
      ((∃ s, source = .offset s) → ∀ f ∈ log, flow.stopRequested f.before = false) := by
  obtain ⟨⟨ending, run, source₁, log₁, w₁⟩, hbody, heq⟩ := Option.map_eq_some_iff.mp (execute_some hrun).2
  have hlog : log₁ = log := by cases ending <;> cases heq <;> rfl
  rw [hlog] at hbody
  constructor
  · have hkeeps := body_keeps_heeding _ (fun _ h => h) (fun h h' hinv => h' (h hinv))
      (ItemFlow.reading_keeps (fun _ log => Fetch.Heeds flow.stopRequested log ∧ Fetch.Settled log)
        RecordSource.next_heeds) pulls _ _ _ hbody
    have hstart : Fetch.Settled ([] : List (FetchRecord σ Json)) := fun _ he => by cases he
    exact (hkeeps ⟨.nil, hstart⟩).1
  · intro hoffset
    have hkeeps := body_keeps_heeding _ (fun _ h => h) (fun h h' hinv => h' (h hinv))
      (ItemFlow.reading_keeps (RecordSource.Unasked flow.stopRequested) RecordSource.next_unasked) pulls _ _ _ hbody
    exact (hkeeps ⟨hoffset, fun _ hf => by cases hf⟩).2

end ChunkStep

namespace SampleReading

/-- The first page is empty and names a new marker. The state counts the fetches. -/
def fetch : Fetch Nat Json := fun _ => .ofStep fun fetched =>
  (.ok (if fetched = 0 then ⟨[], some "b"⟩ else ⟨[.null], none⟩), fetched + 1)

/-- The stop is asked for during the first fetch. -/
def flow : ItemFlow Nat Json Json where
  stopRequested fetched := 0 < fetched
  next := pure none
  process record := pure (some record)
  write _ := pure ()
  writeSkipped _ := pure ()
  close := pure ()

def step : ChunkStep (RecordSource × List (FetchRecord Nat Json) × Nat) Json Json :=
  ⟨"orders", 10, 1000, flow.reading 3 fetch⟩

def execution : Execution := .new 1 "orders-export" [] ⟨0, 0⟩

def source : RecordSource := .cursor (.new "orders" 10 "a" "c")

private theorem ran : ∃ e' source' f g w',
    (step.execute 3 ⟨0, 0⟩).run (execution, source, [], 0) = some (.ok (), e', source', [f, g], w') ∧
      flow.stopRequested f.before = false ∧ flow.stopRequested f.after = true ∧ flow.stopRequested g.before = true :=
  ⟨_, _, _, _, _, rfl, rfl, rfl, rfl⟩

/-- A fetch begins although a stop was asked for during the one before it. -/
theorem fetches_after_request : ∃ e' source' f g w',
    (step.execute 3 ⟨0, 0⟩).run (execution, source, [], 0) = some (.ok (), e', source', [f, g], w') ∧
      flow.stopRequested f.before = false ∧ flow.stopRequested f.after = true ∧ flow.stopRequested g.before = true := ran

/-- The fetch before it leads on. -/
theorem fetch_leads_on : ∃ e' source' f g w',
    (step.execute 3 ⟨0, 0⟩).run (execution, source, [], 0) = some (.ok (), e', source', [f, g], w') ∧ f.LeadsOn := by
  obtain ⟨e', source', f, g, w', hrun, -, -, hasked⟩ := ran
  have hheeds := (ChunkStep.execute_fetches hrun).1
  obtain ⟨e, he, hleads, -⟩ := (hheeds [f] g [] rfl).mp hasked
  cases he
  exact ⟨e', source', f, g, w', hrun, hleads⟩

end SampleReading
end BatchExport
