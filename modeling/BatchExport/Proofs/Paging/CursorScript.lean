import BatchExport.Proofs.Paging.CursorSource
import BatchExport.Proofs.Paging.Script
import Mathlib.Data.Nat.Find

/-! A cursor source over a server that answers whatever it does: pages of any length with any marker, and failures. Main
statement: what any number of pulls answer, what they ask the server for, and when they do; a pull ends unless all
answers from some page on are empty pages with new markers. -/
namespace BatchExport

variable {ρ : Type}

/-- The marker that the answer of a server names. -/
def markOf : Except Failure (Page ρ) → Option String
  | .ok page => page.next
  | .error _ => none

namespace CursorSource

section Script

variable (script : Nat → Except Failure (Page ρ)) (stop : String)

/-- The marker of a request: at first the end of the range, then what the page before names. -/
def scriptMark : Nat → Option String
  | 0 => some stop
  | i + 1 => markOf (script i)

/-- A page leads on if it names a marker, which must be a new one if the page is empty. -/
def leadsOn (i : Nat) : Bool :=
  (markOf (script i)).isSome && !((recordsOf (script i)).isEmpty && markOf (script i) == scriptMark script stop i)

/-- All pages before this one lead on. -/
def Reaches (i : Nat) : Prop := ∀ j < i, leadsOn script stop j = true

instance (i : Nat) : Decidable (Reaches script stop i) :=
  inferInstanceAs (Decidable (∀ j < i, leadsOn script stop j = true))

/-- The records of the first pages of a script, without those that no page leads to. -/
def followedRecords (pages : Nat) : List ρ :=
  ((List.range pages).filter fun i => Reaches script stop i).flatMap fun i => recordsOf (script i)

/-- A pull goes past an empty page that leads on. -/
def passes (i : Nat) : Bool := (recordsOf (script i)).isEmpty && leadsOn script stop i

/-- The pages lead to one from which on all are passed. -/
def IsEndless : Prop := ∃ n, Reaches script stop n ∧ ∀ i ≥ n, passes script stop i = true

end Script

section Script

variable {script : Nat → Except Failure (Page ρ)} {stop : String} {k pages : Nat}

theorem Reaches.mono (h : Reaches script stop pages) (hle : k ≤ pages) : Reaches script stop k :=
  fun j hj => h j (Nat.lt_of_lt_of_le hj hle)

theorem Reaches.succ (h : Reaches script stop k) (hleads : leadsOn script stop k = true) :
    Reaches script stop (k + 1) := by
  intro j hj
  obtain hj | rfl := Nat.lt_succ_iff_lt_or_eq.mp hj
  · exact h j hj
  · exact hleads

theorem not_reaches_succ (hleads : leadsOn script stop k = false) : ¬ Reaches script stop (k + 1) := by
  intro h
  have hon := h k (Nat.lt_succ_self k)
  rw [hleads] at hon
  cases hon

theorem scriptMark_succ {page : Page ρ} (h : script k = .ok page) : scriptMark script stop (k + 1) = page.next := by
  rw [scriptMark, h]
  rfl

theorem passes_iff : passes script stop k = true ↔ recordsOf (script k) = [] ∧ leadsOn script stop k = true := by
  rw [passes, Bool.and_eq_true, List.isEmpty_iff]

/-- A page that is asked for is asked for by a marker. -/
theorem Reaches.mark (h : Reaches script stop k) : ∃ marker, scriptMark script stop k = some marker := by
  cases k with
  | zero => exact ⟨stop, rfl⟩
  | succ k =>
    have hleads := h k (Nat.lt_succ_self k)
    rw [leadsOn, Bool.and_eq_true] at hleads
    exact Option.isSome_iff_exists.mp hleads.1

theorem followedRecords_succ (script : Nat → Except Failure (Page ρ)) (stop : String) (k : Nat) :
    followedRecords script stop (k + 1) =
      followedRecords script stop k ++ if Reaches script stop k then recordsOf (script k) else [] := by
  rw [followedRecords, List.range_succ, List.filter_append, List.flatMap_append]
  by_cases h : Reaches script stop k <;> simp [followedRecords, h]

/-- More pages leave the records as they are at the beginning. -/
theorem followedRecords_mono (hpages : k ≤ pages) :
    followedRecords script stop k <+: followedRecords script stop pages := by
  induction hpages with
  | refl => exact List.prefix_refl _
  | step _ ih =>
    rw [followedRecords_succ]
    exact ih.trans (List.prefix_append _ _)

/-- Nothing follows a page that does not lead on. -/
theorem followedRecords_of_end (hend : ¬ Reaches script stop k) (hpages : k ≤ pages) :
    followedRecords script stop pages = followedRecords script stop k := by
  induction hpages with
  | refl => rfl
  | step hle ih => rw [followedRecords_succ, if_neg (mt (Reaches.mono · hle) hend), List.append_nil, ih]

/-- Pages that are passed add nothing. -/
theorem followedRecords_of_passes {n : Nat} (hpass : ∀ i < n, passes script stop (k + i) = true) :
    followedRecords script stop (k + n) = followedRecords script stop k := by
  induction n with
  | zero => rfl
  | succ n ih =>
    rw [← Nat.add_assoc, followedRecords_succ, (passes_iff.mp (hpass n (Nat.lt_succ_self n))).1, ite_self,
      List.append_nil]
    exact ih fun i hi => hpass i (Nat.lt_succ_of_lt hi)

end Script

/-- What holds after any number of pulls from a source with this page size and range. -/
structure SoFar (script : Nat → Except Failure (Page ρ)) (size : Nat) (first last : String)
    (answers : List (Except Failure (Option ρ))) (s : CursorSource ρ) (log : List (FetchRecord Nat ρ)) : Prop where
  /-- Whatever pages one looks at beyond those that have come: the pulls have delivered the first of their records. -/
  records : ∀ pages, log.length ≤ pages →
    answers.filterMap pulled? = (followedRecords script last pages).take answers.length
  requests : ∀ i f, log[i]? = some f → Reaches script last i ∧ ∃ marker, scriptMark script last i = some marker ∧
    f = ⟨⟨size, .cursor marker, some first, some marker⟩, script i, i, i + 1⟩
  fetches : s.fetches = log.countP (·.answer.isOk)
  mark : ∀ marker, s.mark = some marker → scriptMark script last s.fetches = some marker

/-- What a pull does after these. -/
structure NextPull (script : Nat → Except Failure (Page ρ)) (last : String)
    (answers : List (Except Failure (Option ρ))) (log : List (FetchRecord Nat ρ))
    (answer : Except Failure (Option ρ)) (s' : CursorSource ρ) (log' : List (FetchRecord Nat ρ)) : Prop where
  later : log <+: log'
  /-- A request is sent only when all the records before it are delivered, and each page before it leads on. -/
  sent : ∀ i, log.length ≤ i → i < log'.length →
    Reaches script last i ∧ answers.filterMap pulled? = followedRecords script last i
  /-- The source stays at the marker that the fetch has failed at. -/
  failed : ∀ i f, log.length ≤ i → i < log'.length → script i = .error f →
    answer = .error f ∧ s'.mark = scriptMark script last i ∧ s'.fetches = i
  ended : .ok none ∈ answers → answer = .ok none ∧ log' = log
  aborted : (∃ f, .error f ∈ answers) → (∃ reason, answer = .error (.sourceAborted reason)) ∧ log' = log
  /-- There is no failure but that of a fetch. -/
  own : ∀ f, answer = .error f →
    (∃ f', .error f' ∈ answers) ∨ ∃ i, log.length ≤ i ∧ i < log'.length ∧ script i = .error f

section Stages

variable {script : Nat → Except Failure (Page ρ)} {stop : String} {source s : CursorSource ρ} {records buffer : List ρ}
  {pages : Nat}

/-- The log of the first fetches from a script. -/
def fetched (source : CursorSource ρ) (script : Nat → Except Failure (Page ρ)) (stop : String) (count : Nat) :
    List (FetchRecord Nat ρ) :=
  (List.range count).map fun i => ⟨source.request ((scriptMark script stop i).getD stop), script i, i, i + 1⟩

theorem fetched_succ {marker : String} (source : CursorSource ρ) (hmark : scriptMark script stop pages = some marker) :
    source.fetched script stop (pages + 1) =
      source.fetched script stop pages ++ [⟨source.request marker, script pages, pages, pages + 1⟩] := by
  rw [fetched, fetched, List.range_succ, List.map_append, List.map_singleton, hmark]
  rfl

theorem length_fetched (source : CursorSource ρ) (script : Nat → Except Failure (Page ρ)) (stop : String)
    (count : Nat) : (source.fetched script stop count).length = count := by
  rw [fetched, List.length_map, List.length_range]

theorem fetched_mono (source : CursorSource ρ) {count : Nat} (hle : pages ≤ count) :
    source.fetched script stop pages <+: source.fetched script stop count := by
  obtain ⟨rest, rfl⟩ := Nat.exists_eq_add_of_le hle
  rw [fetched, fetched, List.range_add, List.map_append]
  exact List.prefix_append _ _

/-- The source after so many pages, at this marker and with those records in the buffer. -/
def after (source : CursorSource ρ) (pages : Nat) (mark : Option String) (buffer : List ρ) (state : SourceState) :
    CursorSource ρ :=
  { source with mark, fetches := pages, buffer, state }

/-- What a source that has failed at a marker says from then on. -/
def abortReason (source : CursorSource ρ) (marker : String) (f : Failure) : String :=
  source.label ++ " failed at marker " ++ marker ++ ": " ++ f.message

section Filling

variable {σ : Type} {fetch : Fetch σ ρ} {fuel : Nat} {w : σ}

theorem go_of_buffer (h : s.buffer ≠ []) : fill.go fetch fuel s w = some (.ok (), s, w) := by
  unfold fill.go
  rw [if_pos]
  simp [h]

/-- Without a fetch the fuel does not matter. -/
theorem go_congr (h : ¬s.GoesOn) (fuel more : Nat) : fill.go fetch more s w = fill.go fetch fuel s w := by
  by_cases hbuffer : s.buffer = []
  · by_cases hmark : s.mark = none
    · unfold fill.go
      rw [hmark]
    · have hover : s.state = .exhausted := by simpa [GoesOn, hbuffer, hmark] using h
      unfold fill.go
      rw [hover]
      simp
  · rw [go_of_buffer hbuffer, go_of_buffer hbuffer]

/-- Without records and without a marker nothing is left to fetch. -/
theorem go_of_over (hbuffer : s.buffer = []) (hmark : s.mark = none) :
    fill.go fetch fuel s w = some (.ok (), { s with state := .exhausted }, w) := by
  unfold fill.go
  rw [hmark]
  split
  · rename_i hover
    have hstate : s.state = .exhausted := by simpa [hbuffer] using hover
    rw [← hstate, ← hmark]
  · rfl

/-- The fuel is a bound on the fetches and nothing else. -/
theorem go_steady {more : Nat} {p : Effect.Outcome (CursorSource ρ × σ) Unit} (hle : fuel ≤ more)
    (hrun : fill.go fetch fuel s w = some p) : fill.go fetch more s w = some p := by
  induction fuel generalizing more s w with
  | zero =>
    by_cases hgoes : s.GoesOn
    · rw [go_zero hgoes] at hrun
      cases hrun
    · rw [← hrun, go_congr hgoes]
  | succ fuel ih =>
    by_cases hgoes : s.GoesOn
    · obtain ⟨more, rfl⟩ := Nat.exists_eq_add_of_lt (Nat.lt_of_succ_le hle)
      obtain ⟨marker, hmark⟩ := Option.ne_none_iff_exists'.mp hgoes.2.2
      rw [go_succ hgoes hmark] at hrun ⊢
      obtain ⟨⟨answer, w'⟩, hfetched, hrest⟩ := Option.bind_eq_some_iff.mp hrun
      rw [hfetched, Option.bind_some]
      cases answer with
      | error f => exact hrest
      | ok page => exact ih (Nat.le_add_right _ _) hrest
    · rw [← hrun, go_congr hgoes]

theorem next_steady (fetch : Fetch σ ρ) : Effect.Steady fun fuel => next fuel fetch := by
  intro fuel more ⟨s, w⟩ p hle hrun
  dsimp only at hrun ⊢
  rw [next, Effect.run_ofRun] at hrun ⊢
  dsimp only at hrun ⊢
  split at hrun
  · exact hrun
  · obtain ⟨q, hfill, rfl⟩ := Option.map_eq_some_iff.mp hrun
    rw [fill, Effect.run_ofRun] at hfill ⊢
    dsimp only at hfill ⊢
    rw [go_steady hle hfill]
    rfl

end Filling

/-- A source that has ended or failed says so again. -/
theorem next_of_settled {σ : Type} {fetch : Fetch σ ρ} {answer : Except Failure (Option ρ)}
    (h : s.state.settled? ρ = some answer) (fuel : Nat) (w : σ) :
    (next fuel fetch).run (s, w) = some (answer, s, w) := by
  rw [next, Effect.run_ofRun]
  dsimp only
  rw [h]

/-- One fetch of a pull. -/
private theorem go_fetch {marker : String} (source : CursorSource ρ) (fuel : Nat)
    (hmark : scriptMark script stop pages = some marker) :
    fill.go (Fetch.scripted script).logged (fuel + 1) (source.after pages (some marker) [] .active)
        (source.fetched script stop pages, pages) =
      match script pages with
      | .error f => some (.error f, source.after pages (some marker) [] (.aborted (source.abortReason marker f)),
          source.fetched script stop (pages + 1), pages + 1)
      | .ok page => fill.go (Fetch.scripted script).logged fuel
          ((source.after pages (some marker) [] .active).accept marker page)
          (source.fetched script stop (pages + 1), pages + 1) := by
  have hfetch : (Fetch.scripted script ((source.after pages (some marker) [] .active).request marker)).run pages =
      some (script pages, pages + 1) := rfl
  rw [go_succ ⟨rfl, by simp [after], by simp [after]⟩ rfl, Fetch.run_logged hfetch, fetched_succ source hmark]
  cases script pages <;> rfl

/-- A page with records, or with a new marker. -/
private theorem accept_after {marker : String} {page : Page ρ} (source : CursorSource ρ)
    (hmark : scriptMark script stop pages = some marker) (hscript : script pages = .ok page)
    (hgoes : page.records ≠ [] ∨ leadsOn script stop pages = true) :
    (source.after pages (some marker) [] .active).accept marker page =
      source.after (pages + 1) page.next page.records .active := by
  rw [accept]
  dsimp only
  rw [if_neg]
  · rfl
  · rw [Bool.and_eq_true]
    rintro ⟨hempty, hsame⟩
    rcases hgoes with hrecords | hleads
    · exact hrecords (List.isEmpty_iff.mp hempty)
    · simp_all [leadsOn, markOf, recordsOf]

/-- An empty page that does not lead on. -/
private theorem accept_of_end {marker : String} {page : Page ρ} (source : CursorSource ρ)
    (hmark : scriptMark script stop pages = some marker) (hscript : script pages = .ok page)
    (hempty : page.records = []) (hend : leadsOn script stop pages = false) :
    ∃ state, (source.after pages (some marker) [] .active).accept marker page =
      source.after (pages + 1) none [] state := by
  rw [accept]
  dsimp only
  split
  · exact ⟨.exhausted, rfl⟩
  · rename_i hother
    have hnone : page.next = none := by
      cases hnext : page.next with
      | none => rfl
      | some next => simp_all [leadsOn, markOf, recordsOf]
    rw [hempty, hnone]
    exact ⟨.active, rfl⟩

/-- What follows the pages that a pull goes past. -/
private theorem go_passes (source : CursorSource ρ) (hreach : Reaches script stop pages) (fuel : Nat) {n : Nat}
    (hpass : ∀ i < n, passes script stop (pages + i) = true) :
    Reaches script stop (pages + n) ∧
    fill.go (Fetch.scripted script).logged (fuel + n) (source.after pages (scriptMark script stop pages) [] .active)
        (source.fetched script stop pages, pages) =
      fill.go (Fetch.scripted script).logged fuel
        (source.after (pages + n) (scriptMark script stop (pages + n)) [] .active)
        (source.fetched script stop (pages + n), pages + n) := by
  induction n generalizing fuel with
  | zero => exact ⟨hreach, rfl⟩
  | succ n ih =>
    obtain ⟨hreach', hgo⟩ := ih (fuel + 1) fun i hi => hpass i (Nat.lt_succ_of_lt hi)
    obtain ⟨hempty, hleads⟩ := passes_iff.mp (hpass n (Nat.lt_succ_self n))
    obtain ⟨marker, hmark⟩ := hreach'.mark
    refine ⟨hreach'.succ hleads, ?_⟩
    rw [show fuel + (n + 1) = fuel + 1 + n by omega, hgo, hmark, go_fetch source fuel hmark]
    cases hscript : script (pages + n) with
    | error f =>
      rw [leadsOn, hscript] at hleads
      cases hleads
    | ok page =>
      rw [hscript] at hempty
      dsimp only
      rw [accept_after source hmark hscript (.inr hleads), show page.records = [] from hempty, ← Nat.add_assoc,
        scriptMark_succ hscript]

/-- What the pulls so far have answered, where they have left the source, and how many fetches there were. -/
private inductive Stage (script : Nat → Except Failure (Page ρ)) (stop : String) (source : CursorSource ρ) :
    List (Except Failure (Option ρ)) → CursorSource ρ → Nat → Prop
  | going (records buffer : List ρ) (pages : Nat)
      (came : ∀ i < pages, Reaches script stop i ∧ (script i).isOk = true)
      (next : (scriptMark script stop pages).isSome → Reaches script stop pages)
      (flow : records ++ buffer = followedRecords script stop pages) :
      Stage script stop source (answered records)
        (source.after pages (scriptMark script stop pages) buffer .active) pages
  | ended (records : List ρ) (pages more : Nat)
      (came : ∀ i < pages, Reaches script stop i ∧ (script i).isOk = true)
      (ends : ¬ Reaches script stop pages) (flow : records = followedRecords script stop pages) :
      Stage script stop source (answered records ++ List.replicate (more + 1) (.ok none))
        (source.after pages none [] .exhausted) pages
  | aborted (records : List ρ) (pages more : Nat) (marker : String) (f : Failure) (failed : script pages = .error f)
      (came : ∀ i < pages, Reaches script stop i ∧ (script i).isOk = true)
      (next : Reaches script stop pages) (mark : scriptMark script stop pages = some marker)
      (flow : records = followedRecords script stop pages) :
      Stage script stop source
        (answered records ++ .error f :: List.replicate more (.error (.sourceAborted (source.abortReason marker f))))
        (source.after pages (some marker) [] (.aborted (source.abortReason marker f))) (pages + 1)

section Pull

variable {answers : List (Except Failure (Option ρ))} {s' : CursorSource ρ} {log : List (FetchRecord Nat ρ)}
  {answer : Except Failure (Option ρ)}

/-- A pull without a fetch. -/
private theorem NextPull.quiet (hended : .ok none ∈ answers → answer = .ok none)
    (haborted : (∃ f, .error f ∈ answers) → ∃ reason, answer = .error (.sourceAborted reason))
    (hown : ∀ f, answer = .error f → ∃ f', .error f' ∈ answers) :
    NextPull script stop answers log answer s' log where
  later := List.prefix_refl _
  sent _ hle hlt := absurd hlt (Nat.not_lt_of_le hle)
  failed _ _ hle hlt := absurd hlt (Nat.not_lt_of_le hle)
  ended h := ⟨hended h, rfl⟩
  aborted h := ⟨haborted h, rfl⟩
  own f h := .inl (hown f h)

/-- A pull without a fetch while the source is going. -/
private theorem NextPull.going {record? : Option ρ} :
    NextPull script stop (answered records) log (.ok record?) s' log :=
  .quiet (absurd · none_not_mem_answered) (absurd · error_not_mem_answered) fun f h => by cases h

/-- A pull that goes past some pages and ends with a fetch. -/
private theorem NextPull.fetch {n : Nat} (flow : records = followedRecords script stop pages)
    (hpass : ∀ i < n, passes script stop (pages + i) = true) (hreach : Reaches script stop (pages + n))
    (hfailed : ∀ f, script (pages + n) = .error f →
      answer = .error f ∧ s'.mark = scriptMark script stop (pages + n) ∧ s'.fetches = pages + n)
    (hown : ∀ f, answer = .error f → script (pages + n) = .error f) :
    NextPull script stop (answered records) (source.fetched script stop pages) answer s'
      (source.fetched script stop (pages + n + 1)) where
  later := source.fetched_mono (by omega)
  sent i hle hlt := by
    rw [length_fetched] at hle hlt
    obtain ⟨k, rfl⟩ := Nat.exists_eq_add_of_le hle
    refine ⟨hreach.mono (by omega), ?_⟩
    rw [filterMap_answered, followedRecords_of_passes fun i hi => hpass i (by omega), flow]
  failed i f hle hlt hf := by
    rw [length_fetched] at hle hlt
    obtain ⟨k, rfl⟩ := Nat.exists_eq_add_of_le hle
    by_cases hk : k < n
    · -- A page that is passed has come.
      have hleads := (passes_iff.mp (hpass k hk)).2
      rw [leadsOn, hf] at hleads
      cases hleads
    · obtain rfl : k = n := by omega
      exact hfailed f hf
  ended := (absurd · none_not_mem_answered)
  aborted := (absurd · error_not_mem_answered)
  own f hf := .inr ⟨pages + n, by rw [length_fetched]; omega, by rw [length_fetched]; omega, hown f hf⟩

end Pull

/-- A pull leads from a stage to the next one. -/
private def Goes (script : Nat → Except Failure (Page ρ)) (stop : String) (source : CursorSource ρ)
    (answers : List (Except Failure (Option ρ))) (s : CursorSource ρ) (count : Nat) : Prop :=
  ∃ answer s' count', Effect.EndsWith (next · (Fetch.scripted script).logged)
      (s, source.fetched script stop count, count) answer (s', source.fetched script stop count', count') ∧
    Stage script stop source (answers ++ [answer]) s' count' ∧
    NextPull script stop answers (source.fetched script stop count) answer s' (source.fetched script stop count')

private theorem Goes.of_ended (more : Nat) (came : ∀ i < pages, Reaches script stop i ∧ (script i).isOk = true)
    (ends : ¬ Reaches script stop pages) (flow : records = followedRecords script stop pages) :
    Goes script stop source (answered records ++ List.replicate (more + 1) (.ok none))
      (source.after pages none [] .exhausted) pages := by
  refine ⟨.ok none, _, _, ⟨0, fun fuel _ => next_of_settled rfl fuel _⟩, ?_,
    .quiet (fun _ => rfl) ?_ fun f h => by cases h⟩
  · rw [List.append_assoc, ← List.replicate_succ']
    exact .ended records _ (more + 1) came ends flow
  · rintro ⟨f, hf⟩
    obtain hf | hf := List.mem_append.mp hf
    · exact absurd ⟨f, hf⟩ error_not_mem_answered
    · cases (List.mem_replicate.mp hf).2

private theorem Goes.of_aborted {marker : String} {f : Failure} (more : Nat) (failed : script pages = .error f)
    (came : ∀ i < pages, Reaches script stop i ∧ (script i).isOk = true) (reach : Reaches script stop pages)
    (mark : scriptMark script stop pages = some marker) (flow : records = followedRecords script stop pages) :
    Goes script stop source
      (answered records ++ .error f :: List.replicate more (.error (.sourceAborted (source.abortReason marker f))))
      (source.after pages (some marker) [] (.aborted (source.abortReason marker f))) (pages + 1) := by
  refine ⟨.error (.sourceAborted (source.abortReason marker f)), _, _, ⟨0, fun fuel _ => next_of_settled rfl fuel _⟩, ?_,
    .quiet ?_ (fun _ => ⟨_, rfl⟩) fun _ _ => ⟨f, by simp⟩⟩
  · rw [List.append_assoc, List.cons_append, ← List.replicate_succ']
    exact .aborted records _ (more + 1) marker f failed came reach mark flow
  · intro hnone
    obtain hnone | hnone := List.mem_append.mp hnone
    · exact absurd hnone none_not_mem_answered
    · simp at hnone

/-- The first fetch of a page that is not passed. -/
private theorem go_stops {marker : String} (source : CursorSource ρ) (hreach : Reaches script stop pages) {n : Nat}
    (hpass : ∀ i < n, passes script stop (pages + i) = true)
    (hmark : scriptMark script stop (pages + n) = some marker) {fuel : Nat} (hfuel : fuel ≥ n + 1) :
    ∃ rest, fill.go (Fetch.scripted script).logged fuel
        (source.after pages (scriptMark script stop pages) [] .active) (source.fetched script stop pages, pages) =
      match script (pages + n) with
      | .error f => some (.error f, source.after (pages + n) (some marker) [] (.aborted (source.abortReason marker f)),
          source.fetched script stop (pages + n + 1), pages + n + 1)
      | .ok page => fill.go (Fetch.scripted script).logged rest
          ((source.after (pages + n) (some marker) [] .active).accept marker page)
          (source.fetched script stop (pages + n + 1), pages + n + 1) := by
  obtain ⟨rest, rfl⟩ := Nat.exists_eq_add_of_le hfuel
  refine ⟨rest, ?_⟩
  rw [show n + 1 + rest = rest + 1 + n by omega, (go_passes source hreach (rest + 1) hpass).2, hmark,
    go_fetch source rest hmark]

/-- A pull that fetches: it goes past some pages, and what comes next is not passed. -/
private theorem Goes.of_fetch {n : Nat} (hreach : Reaches script stop pages)
    (flow : records = followedRecords script stop pages) (hpass : ∀ i < n, passes script stop (pages + i) = true)
    (hlast : passes script stop (pages + n) = false) :
    Goes script stop source (answered records) (source.after pages (scriptMark script stop pages) [] .active) pages := by
  have hreach' : Reaches script stop (pages + n) := (go_passes source hreach 0 hpass).1
  have hflow : records = followedRecords script stop (pages + n) := flow.trans (followedRecords_of_passes hpass).symm
  have came' : ∀ i < pages + n, Reaches script stop i ∧ (script i).isOk = true := by
    intro i hi
    refine ⟨hreach'.mono hi.le, ?_⟩
    have hleads := hreach' i hi
    cases hscript : script i with
    | ok page => rfl
    | error f =>
      rw [leadsOn, hscript] at hleads
      cases hleads
  obtain ⟨marker, hmark⟩ := hreach'.mark
  cases hscript : script (pages + n) with
  | error f =>
    refine ⟨.error f, source.after (pages + n) (some marker) [] (.aborted (source.abortReason marker f)),
      pages + n + 1, ⟨n + 1, fun fuel hfuel => ?_⟩, .aborted records _ 0 marker f hscript came' hreach' hmark hflow,
      .fetch flow hpass hreach' ?_ ?_⟩
    · obtain ⟨rest, hgo⟩ := go_stops source hreach hpass hmark hfuel
      rw [next_of_fill rfl, hgo, hscript]
      rfl
    · intro f' hf'
      cases hscript.symm.trans hf'
      exact ⟨rfl, hmark.symm, rfl⟩
    · rintro f' ⟨⟩
      exact hscript
  | ok page =>
    have came'' : ∀ i < pages + n + 1, Reaches script stop i ∧ (script i).isOk = true := by
      intro i hi
      obtain hi | rfl := Nat.lt_succ_iff_lt_or_eq.mp hi
      · exact came' i hi
      · exact ⟨hreach', by rw [hscript]; rfl⟩
    -- A page that comes is no failure.
    have hpull (record? : Option ρ) (s' : CursorSource ρ) : NextPull script stop (answered records)
        (source.fetched script stop pages) (.ok record?) s' (source.fetched script stop (pages + n + 1)) :=
      .fetch flow hpass hreach' (fun f hf => by cases hscript.symm.trans hf) fun f hf => by cases hf
    have hnext : followedRecords script stop (pages + n + 1) = records ++ page.records := by
      rw [followedRecords_succ, if_pos hreach', ← hflow, hscript]
      rfl
    cases hrecords : page.records with
    | nil =>
      have hend : leadsOn script stop (pages + n) = false := by
        rw [passes, hscript] at hlast
        simpa [recordsOf, hrecords] using hlast
      refine ⟨.ok none, source.after (pages + n + 1) none [] .exhausted, pages + n + 1, ⟨n + 1, fun fuel hfuel => ?_⟩,
        .ended records _ 0 came'' (not_reaches_succ hend) ?_, hpull none _⟩
      · obtain ⟨rest, hgo⟩ := go_stops source hreach hpass hmark hfuel
        obtain ⟨state, haccept⟩ := accept_of_end source hmark hscript hrecords hend
        rw [next_of_fill rfl, hgo, hscript]
        dsimp only
        rw [haccept, go_of_over rfl rfl]
        rfl
      · rw [hnext, hrecords, List.append_nil]
    | cons record rest =>
      refine ⟨.ok (some record), source.after (pages + n + 1) page.next rest .active, pages + n + 1,
        ⟨n + 1, fun fuel hfuel => ?_⟩, ?_, hpull _ _⟩
      · obtain ⟨more, hgo⟩ := go_stops source hreach hpass hmark hfuel
        rw [next_of_fill rfl, hgo, hscript]
        dsimp only
        rw [accept_after source hmark hscript (.inl (by simp [hrecords])), go_of_buffer (by simp [after, hrecords]),
          hrecords]
        rfl
      · rw [answered_snoc, ← scriptMark_succ hscript]
        refine .going _ rest _ came'' (fun hsome => ?_) ?_
        · refine hreach'.succ ?_
          rw [scriptMark_succ hscript] at hsome
          rw [leadsOn, hscript]
          simp [markOf, recordsOf, hrecords, hsome]
        · rw [hnext, hrecords, List.append_assoc, List.singleton_append]

/-- A pull that goes past page after page never ends. -/
private theorem next_endless (source : CursorSource ρ) (hreach : Reaches script stop pages)
    (hpass : ∀ i, passes script stop (pages + i) = true) : Effect.NeverEnds (next · (Fetch.scripted script).logged)
      (source.after pages (scriptMark script stop pages) [] .active, source.fetched script stop pages, pages) := by
  intro fuel
  obtain ⟨hreach', hgo⟩ := go_passes source hreach 0 (n := fuel) fun i _ => hpass i
  obtain ⟨marker, hmark⟩ := hreach'.mark
  rw [Nat.zero_add, hmark, go_zero ⟨rfl, by simp [after], by simp [after]⟩] at hgo
  rw [next_of_fill rfl, hgo]
  rfl

/-- A pull ends, unless it goes past page after page. -/
private theorem Stage.goes {answers : List (Except Failure (Option ρ))} {count : Nat}
    (h : Stage script stop source answers s count) : Goes script stop source answers s count ∨
      IsEndless script stop ∧
        Effect.NeverEnds (next · (Fetch.scripted script).logged) (s, source.fetched script stop count, count) := by
  cases h with
  | ended records pages more came ends flow => exact .inl (.of_ended more came ends flow)
  | aborted records pages more marker f failed came reach mark flow =>
    exact .inl (.of_aborted more failed came reach mark flow)
  | going records buffer _ came next flow =>
    cases buffer with
    | cons record rest =>
      refine .inl ⟨.ok (some record), source.after count (scriptMark script stop count) rest .active, count,
        ⟨0, fun fuel _ => ?_⟩, ?_, .going⟩
      · rw [next_of_fill rfl, go_of_buffer (by simp [after])]
        rfl
      · rw [answered_snoc]
        exact .going _ rest count came next (by simpa using flow)
    | nil =>
      rw [List.append_nil] at flow
      cases hmark : scriptMark script stop count with
      | none =>
        refine .inl ⟨.ok none, source.after count none [] .exhausted, count, ⟨0, fun fuel _ => ?_⟩, ?_, .going⟩
        · rw [next_of_fill rfl, go_of_over rfl rfl]
          rfl
        · refine .ended records count 0 came (fun hreach => ?_) flow
          obtain ⟨marker, hmarker⟩ := hreach.mark
          cases hmark.symm.trans hmarker
      | some marker =>
        have hreach : Reaches script stop count := next (by rw [hmark]; rfl)
        rw [← hmark]
        by_cases hall : ∀ i, passes script stop (count + i) = true
        · right
          refine ⟨⟨count, hreach, fun i hi => ?_⟩, next_endless source hreach hall⟩
          obtain ⟨k, rfl⟩ := Nat.exists_eq_add_of_le hi
          exact hall k
        · left
          have hstops : ∃ n, passes script stop (count + n) = false := by simpa using hall
          refine .of_fetch hreach flow (n := Nat.find hstops) (fun i hi => ?_) (Nat.find_spec hstops)
          exact Bool.not_eq_false _ ▸ Nat.find_min hstops hi

/-- The pulls end, or empty pages go on for ever. -/
private theorem times_stage (h : Stage script stop source [] source 0) (pulls : Nat) :
    (∃ answers s count, Effect.EndsWith (fun fuel => (next fuel (Fetch.scripted script).logged).attempt.times pulls)
        (source, [], 0) (.ok answers) (s, source.fetched script stop count, count) ∧
      answers.length = pulls ∧ Stage script stop source answers s count) ∨
    IsEndless script stop ∧ Effect.NeverEnds
      (fun fuel => (next fuel (Fetch.scripted script).logged).attempt.times pulls) (source, [], 0) := by
  induction pulls with
  | zero => exact .inl ⟨[], source, 0, ⟨0, fun _ _ => rfl⟩, rfl, h⟩
  | succ pulls ih =>
    obtain ⟨answers, s, count, hearlier, hlength, hstage⟩ | ⟨hendless, hnone⟩ := ih
    · obtain ⟨answer, s', count', hlast, hnext, -⟩ | ⟨hendless, hnone⟩ := hstage.goes
      · refine .inl ⟨answers ++ [answer], s', count', hearlier.times hlast.attempt, ?_, hnext⟩
        rw [List.length_append, hlength]
        rfl
      · exact .inr ⟨hendless, (next_steady _).attempt.neverEnds_times hearlier hnone.attempt⟩
    · exact .inr ⟨hendless, hnone.times⟩

private theorem countP_fetched (source : CursorSource ρ) (h : ∀ i < pages, (script i).isOk = true) :
    (source.fetched script stop pages).countP (·.answer.isOk) = pages := by
  rw [List.countP_eq_length.mpr ?_, length_fetched]
  intro record hrecord
  obtain ⟨i, hi, rfl⟩ := List.mem_map.mp hrecord
  exact h i (List.mem_range.mp hi)

/-- On an endless script there are no more answers than records. -/
private theorem Stage.few {answers : List (Except Failure (Option ρ))} {n : Nat}
    (h : Stage script stop source answers s pages) (hreach : Reaches script stop n)
    (hpass : ∀ i ≥ n, passes script stop i = true) : answers.length ≤ (followedRecords script stop n).length := by
  have hleads (i : Nat) : leadsOn script stop i = true := by
    by_cases hi : i < n
    · exact hreach i hi
    · exact (passes_iff.mp (hpass i (Nat.le_of_not_lt hi))).2
  cases h with
  | going records buffer _ came next flow =>
    have hrecords : (followedRecords script stop pages).length ≤ (followedRecords script stop n).length := by
      by_cases hn : pages ≤ n
      · exact (followedRecords_mono hn).length_le
      · obtain ⟨k, rfl⟩ := Nat.exists_eq_add_of_lt (Nat.lt_of_not_le hn)
        rw [Nat.add_assoc, followedRecords_of_passes fun i _ => hpass _ (Nat.le_add_right n i)]
    rw [length_answered]
    rw [← flow, List.length_append] at hrecords
    omega
  | ended records _ more came ends flow => exact absurd (fun j _ => hleads j) ends
  | aborted records count more marker f failed came next mark flow =>
    have hon := hleads count
    rw [leadsOn, failed] at hon
    cases hon

/-- In a log whose requests the pages have led to, each request bears its marker. -/
private theorem requests_fetched {size i : Nat} {label first last : String} {f : FetchRecord Nat ρ}
    (hreach : ∀ j < pages, Reaches script last j)
    (h : ((new label size first last).fetched script last pages)[i]? = some f) :
    Reaches script last i ∧ ∃ marker, scriptMark script last i = some marker ∧
      f = ⟨⟨max size 1, .cursor marker, some first, some marker⟩, script i, i, i + 1⟩ := by
  have hi : i < pages := by
    have hlength := (List.getElem?_eq_some_iff.mp h).1
    rwa [length_fetched] at hlength
  rw [fetched, List.getElem?_map, List.getElem?_range hi, Option.map_some, Option.some.injEq] at h
  subst h
  obtain ⟨marker, hmark⟩ := (hreach i hi).mark
  refine ⟨hreach i hi, marker, hmark, ?_⟩
  rw [hmark]
  rfl

private theorem Stage.soFar {size count : Nat} {label first last : String} {answers : List (Except Failure (Option ρ))}
    (h : Stage script last (new label size first last) answers s count) :
    SoFar script (max size 1) first last answers s ((new label size first last).fetched script last count) := by
  cases h with
  | going records buffer _ came next flow =>
    refine ⟨fun pages hpages => ?_, fun i f => requests_fetched fun j hj => (came j hj).1,
      (countP_fetched _ fun i hi => (came i hi).2).symm, fun marker hmark => hmark⟩
    rw [length_fetched] at hpages
    rw [filterMap_answered, length_answered]
    exact List.prefix_iff_eq_take.mp ((List.prefix_append _ _).trans (flow ▸ followedRecords_mono hpages))
  | ended records _ more came ends flow =>
    refine ⟨fun pages hpages => ?_, fun i f => requests_fetched fun j hj => (came j hj).1,
      (countP_fetched _ fun i hi => (came i hi).2).symm, fun marker hmark => by cases hmark⟩
    rw [length_fetched] at hpages
    rw [filterMap_ended, followedRecords_of_end ends hpages, ← flow, List.length_append, length_answered,
      List.take_of_length_le (Nat.le_add_right _ _)]
  | aborted records pages more marker f failed came next mark flow =>
    have hover : leadsOn script last pages = false := by
      rw [leadsOn, failed]
      rfl
    refine ⟨fun n hn => ?_, fun i f => requests_fetched fun j hj => ?_, ?_, fun marker' hmark => hmark ▸ mark⟩
    · rw [length_fetched] at hn
      rw [filterMap_aborted, followedRecords_of_end (not_reaches_succ hover) hn, followedRecords_succ, if_pos next,
        failed, ← flow, List.length_append, length_answered]
      exact (List.take_of_length_le (by simp)).trans (List.append_nil _) |>.symm
    · obtain hj | rfl := Nat.lt_succ_iff_lt_or_eq.mp hj
      · exact (came j hj).1
      · exact next
    · rw [fetched_succ _ mark, List.countP_append, countP_fetched _ fun i hi => (came i hi).2, failed]
      rfl

end Stages

/-- Whatever a server answers, any number of pulls end, unless empty pages with new markers go on for ever. As long as
they end: the records delivered are those of the pages that lead on and of the one after them, whole and in their order;
each request bears the marker that the page before it names, and is sent only when all records before it are delivered;
after the end, and after a failure, nothing is fetched. -/
theorem follows_markers (script : Nat → Except Failure (Page ρ)) (label : String) (size : Nat) (first last : String) :
    (∀ pulls, (∃ answers s log,
        Effect.EndsWith (fun fuel => (next fuel (Fetch.scripted script).logged).attempt.times pulls)
          (new label size first last, [], 0) (.ok answers) (s, log, log.length) ∧
        answers.length = pulls ∧
        SoFar script (max size 1) first last answers s log ∧
        ((∃ answer s' log', Effect.EndsWith (next · (Fetch.scripted script).logged) (s, log, log.length) answer
            (s', log', log'.length) ∧ NextPull script last answers log answer s' log') ∨
          Effect.NeverEnds (next · (Fetch.scripted script).logged) (s, log, log.length))) ∨
      Effect.NeverEnds (fun fuel => (next fuel (Fetch.scripted script).logged).attempt.times pulls)
        (new label size first last, [], 0)) ∧
    ((∃ pulls, Effect.NeverEnds (fun fuel => (next fuel (Fetch.scripted script).logged).attempt.times pulls)
      (new label size first last, [], 0)) ↔ IsEndless script last) := by
  have hstart : Stage script last (new label size first last) [] (new label size first last) 0 :=
    .going [] [] 0 (fun i hi => absurd hi (Nat.not_lt_zero i)) (fun _ j hj => absurd hj (Nat.not_lt_zero j)) rfl
  refine ⟨fun pulls => ?_, ?_, ?_⟩
  · obtain ⟨answers, s, count, hrun, hlength, hstage⟩ | ⟨-, hnone⟩ := times_stage hstart pulls
    · refine .inl ⟨answers, s, _, ?_, hlength, hstage.soFar, ?_⟩
      · rw [length_fetched]
        exact hrun
      · rw [length_fetched]
        obtain ⟨answer, s', count', hnext, -, hpull⟩ | ⟨-, hnone⟩ := hstage.goes
        · refine .inl ⟨answer, s', _, ?_, hpull⟩
          rw [length_fetched]
          exact hnext
        · exact .inr hnone
    · exact .inr hnone
  · rintro ⟨pulls, hnone⟩
    obtain ⟨answers, s, count, hrun, -⟩ | ⟨hendless, -⟩ := times_stage hstart pulls
    · exact absurd hnone hrun.not_neverEnds
    · exact hendless
  · rintro ⟨n, hreach, hpass⟩
    obtain ⟨answers, s, count, -, hlength, hstage⟩ | ⟨-, hnone⟩ :=
      times_stage hstart ((followedRecords script last n).length + 1)
    · exact absurd (hstage.few hreach hpass) (by omega)
    · exact ⟨_, hnone⟩

/-- The empty page names a new marker, so the pull goes past it, and no page is cut. -/
example : (((next 2 (Fetch.scripted fun
    | 0 => .ok ⟨[1], some "c"⟩
    | 1 => .ok ⟨[], some "b"⟩
    | 2 => .ok ⟨[2, 3], none⟩
    | _ => .error (.notFound "order" "4"))).attempt.times 5).run (new "orders" 1 "a" "d", 0)).map (·.1) =
      some (.ok [.ok (some 1), .ok (some 2), .ok (some 3), .ok none, .ok none]) := rfl

end CursorSource
end BatchExport
