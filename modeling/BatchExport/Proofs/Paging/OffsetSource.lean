import BatchExport.Paging.OffsetSource
import BatchExport.Proofs.Paging.Fetches
import Mathlib.Algebra.Order.Floor.Div

/-! An offset source over a collection that does not change. Main statement: it delivers what follows its start, up to
its maximum, once and in order, with as few fetches as it can know to need. -/
namespace BatchExport.OffsetSource

variable {σ ρ : Type}

/-- Where a page starts, counted from zero. -/
def place (s : OffsetSource ρ) (page : Nat) : UInt64 := s.offset + .ofNat (s.pageSize * page)

theorem place_zero (s : OffsetSource ρ) : s.place 0 = s.offset := UInt64.add_zero _

theorem place_succ (s : OffsetSource ρ) (page : Nat) : s.place (page + 1) = s.place page + .ofNat s.pageSize := by
  rw [place, place, Nat.mul_succ, UInt64.ofNat_add, UInt64.add_assoc]

theorem toNat_place (s : OffsetSource ρ) (page : Nat) :
    (s.place page).toNat = (s.offset.toNat + s.pageSize * page) % 2 ^ 64 := by
  rw [place, UInt64.toNat_add, UInt64.toNat_ofNat', Nat.add_mod_mod]

/-- The request for a page, counted from zero. -/
def requestAt (s : OffsetSource ρ) (page : Nat) : PageRequest :=
  { s.request with position := .offset (s.place page).toNat }

/-- What a source is to deliver of the records that follow its start. -/
def wanted (s : OffsetSource ρ) (rest : List ρ) : List ρ := s.maxItems.elim rest rest.take

/-- The fetches that it takes to deliver all: without a maximum within reach, an empty page tells the end. -/
def fetchesForAll (s : OffsetSource ρ) (rest : List ρ) : Nat :=
  match s.maxItems with
  | some most => if most ≤ rest.length then most ⌈/⌉ s.pageSize else rest.length ⌈/⌉ s.pageSize + 1
  | none => rest.length ⌈/⌉ s.pageSize + 1

/-- The fetches that so many pulls take. -/
def fetchesFor (s : OffsetSource ρ) (rest : List ρ) (pulls : Nat) : Nat :=
  if pulls ≤ (s.wanted rest).length then pulls ⌈/⌉ s.pageSize else s.fetchesForAll rest

/-- The source when so many records are delivered: it has fetched no page that it did not need for them. -/
def reading (s : OffsetSource ρ) (rest : List ρ) (count : Nat) : OffsetSource ρ :=
  { s with
    offset := s.place (count ⌈/⌉ s.pageSize)
    buffer := (rest.take (s.pageSize * (count ⌈/⌉ s.pageSize))).drop count
    delivered := count
    fetches := count ⌈/⌉ s.pageSize }

section Pages

variable {count size : Nat}

private theorem pages_within (hsize : 0 < size) : count ≤ size * (count ⌈/⌉ size) := le_smul_ceilDiv hsize

private theorem pages_next_within (hsize : 0 < size) (h : count < size * (count ⌈/⌉ size)) :
    (count + 1) ⌈/⌉ size = count ⌈/⌉ size := by
  apply le_antisymm
  · exact (ceilDiv_le_iff_le_mul hsize).mpr h
  · apply (ceilDiv_le_iff_le_mul hsize).mpr
    have hnext : count + 1 ≤ size * ((count + 1) ⌈/⌉ size) := pages_within hsize
    omega

private theorem pages_next_full (hsize : 0 < size) (h : size * (count ⌈/⌉ size) = count) :
    (count + 1) ⌈/⌉ size = count ⌈/⌉ size + 1 := by
  apply le_antisymm
  · apply (ceilDiv_le_iff_le_mul hsize).mpr
    rw [Nat.mul_add]
    omega
  · apply Nat.succ_le_of_lt
    by_contra hle
    have hcount : count + 1 ≤ size * (count ⌈/⌉ size) := (ceilDiv_le_iff_le_mul hsize).mp (not_lt.mp hle)
    omega

end Pages

section Settled

variable {fetch : Fetch σ ρ} {t : OffsetSource ρ}

/-- A source that has ended or failed says so again. -/
theorem next_of_settled {answer : Except Failure (Option ρ)} (h : t.state.settled? ρ = some answer) (w : σ) :
    (next fetch).run (t, w) = some (answer, t, w) := by
  rw [next, Effect.run_ofRun]
  dsimp only
  rw [h]

/-- A pull when the maximum is reached. -/
theorem next_of_full (hgoing : t.state.settled? ρ = none) (hfull : t.isFull = true) (w : σ) :
    (next fetch).run (t, w) = some (.ok none, { t with state := .exhausted, buffer := [] }, w) := by
  rw [next, Effect.run_ofRun]
  dsimp only
  rw [hgoing, hfull]
  rfl

end Settled

section Next

variable {fetch : Fetch σ ρ} {t t' : OffsetSource ρ} {w w' : σ} (hgoing : t.state.settled? ρ = none)
  (hopen : t.isFull = false)
include hgoing hopen

/-- A pull from the buffer. -/
theorem next_of_buffer {record : ρ} {buffer : List ρ} (hbuffer : t.buffer = record :: buffer) :
    (next fetch).run (t, w) = some (.ok (some record), { t with buffer, delivered := t.delivered + 1 }, w) := by
  rw [next, Effect.run_ofRun]
  dsimp only
  rw [hgoing, hopen, pop, hbuffer]
  rfl

/-- A pull that fetches a page first. -/
theorem next_of_page {page : Page ρ} {answer? : Option ρ} (hempty : t.buffer = [])
    (hfetch : (fetch t.request).run w = some (.ok page, w')) (hpop : (t.accept page).pop = (answer?, t')) :
    (next fetch).run (t, w) = some (.ok answer?, t', w') := by
  rw [next, Effect.run_ofRun]
  dsimp only
  rw [hgoing, hopen, hempty, hfetch]
  simp only [Bool.false_eq_true, if_false, List.isEmpty_nil, if_true, Option.map_some, hpop]

/-- A pull whose page does not come. -/
theorem next_of_failure {f : Failure} (hempty : t.buffer = [])
    (hfetch : (fetch t.request).run w = some (.error f, w')) :
    (next fetch).run (t, w) = some (.error f, t.abort f, w') := by
  rw [next, Effect.run_ofRun]
  dsimp only
  rw [hgoing, hopen, hempty, hfetch]
  simp only [Bool.false_eq_true, if_false, List.isEmpty_nil, if_true, Option.map_some]

end Next

section Turns

/-- What a pull can be. -/
inductive Turn (fetch : Fetch σ ρ) (s : OffsetSource ρ) (w : σ) :
    Except Failure (Option ρ) → OffsetSource ρ → σ → Prop
  | settled {answer : Except Failure (Option ρ)} (settled : s.state.settled? ρ = some answer) : Turn fetch s w answer s w
  | full (going : s.state.settled? ρ = none) (full : s.isFull = true) :
      Turn fetch s w (.ok none) { s with state := .exhausted, buffer := [] } w
  | buffered (going : s.state.settled? ρ = none) (hungry : s.isFull = false) (buffer : s.buffer ≠ []) :
      Turn fetch s w (.ok s.pop.1) s.pop.2 w
  | fails {f : Failure} {w' : σ} (going : s.state.settled? ρ = none) (hungry : s.isFull = false) (empty : s.buffer = [])
      (fetched : (fetch s.request).run w = some (.error f, w')) : Turn fetch s w (.error f) (s.abort f) w'
  | accepts {page : Page ρ} {w' : σ} (going : s.state.settled? ρ = none) (hungry : s.isFull = false) (empty : s.buffer = [])
      (fetched : (fetch s.request).run w = some (.ok page, w')) :
      Turn fetch s w (.ok (s.accept page).pop.1) (s.accept page).pop.2 w'

theorem next_turn {fetch : Fetch σ ρ} {s s' : OffsetSource ρ} {w w' : σ} {r : Except Failure (Option ρ)}
    (hrun : (next fetch).run (s, w) = some (r, s', w')) : Turn fetch s w r s' w' := by
  rw [next, Effect.run_ofRun] at hrun
  dsimp only at hrun
  split at hrun
  · cases hrun
    exact .settled ‹_›
  · split at hrun
    · cases hrun
      exact .full ‹_› ‹_›
    · have hhungry := Bool.eq_false_iff.mpr ‹¬s.isFull = true›
      split at hrun
      · have hempty := List.isEmpty_iff.mp ‹_›
        obtain ⟨⟨answer, w₁⟩, hfetched, heq⟩ := Option.map_eq_some_iff.mp hrun
        cases answer with
        | error f =>
          cases heq
          exact .fails ‹_› hhungry hempty hfetched
        | ok page =>
          cases heq
          exact .accepts ‹_› hhungry hempty hfetched
      · cases hrun
        exact .buffered ‹_› hhungry (mt List.isEmpty_iff.mpr ‹_›)

end Turns

section Pulls

variable {fetch : Fetch σ ρ} {collection rest : List ρ} {s : OffsetSource ρ} {count : Nat} {w : σ}
  {log : List (FetchRecord σ ρ)}

theorem wanted_length_le (s : OffsetSource ρ) (rest : List ρ) : (s.wanted rest).length ≤ rest.length := by
  rw [wanted]
  cases s.maxItems with
  | none => exact le_refl _
  | some most => exact List.length_take_le' _ _

theorem getElem?_wanted (h : count < (s.wanted rest).length) : (s.wanted rest)[count]? = rest[count]? := by
  rw [wanted] at *
  cases hmax : s.maxItems with
  | none => rfl
  | some most =>
    rw [hmax] at h
    have hmost : count < most := lt_of_lt_of_le h (List.length_take_le _ _)
    exact List.getElem?_take_of_lt hmost

private theorem reading_going (hactive : s.state = .active) (rest : List ρ) (count : Nat) :
    (s.reading rest count).state.settled? ρ = none := by
  rw [reading, hactive]
  rfl

/-- A source that has not delivered all that is wanted is not full. -/
private theorem isFull_reading (h : count < (s.wanted rest).length) : (s.reading rest count).isFull = false := by
  rw [wanted] at h
  rw [isFull, reading]
  cases hmax : s.maxItems with
  | none => rfl
  | some most =>
    rw [hmax] at h
    have hmost : count < most := lt_of_lt_of_le h (List.length_take_le _ _)
    simpa using hmost

/-- A source that is full with all that is wanted has its maximum within reach. -/
private theorem fetchesForAll_of_full (h : (s.reading rest (s.wanted rest).length).isFull = true) :
    s.fetchesForAll rest = (s.wanted rest).length ⌈/⌉ s.pageSize := by
  rw [isFull, reading] at h
  rw [fetchesForAll]
  rw [wanted] at *
  cases hmax : s.maxItems with
  | none =>
    rw [hmax] at h
    cases h
  | some most =>
    rw [hmax] at h
    dsimp only [Option.elim, Option.any] at *
    have hmost : most ≤ (rest.take most).length := of_decide_eq_true h
    have hlength : (rest.take most).length = min most rest.length := List.length_take
    have hreach : most ≤ rest.length := by omega
    rw [if_pos hreach, hlength, Nat.min_eq_left hreach]

/-- A source that is not full with all that is wanted is to deliver all the records that there are. -/
private theorem wanted_of_not_full (h : (s.reading rest (s.wanted rest).length).isFull = false) :
    (s.wanted rest).length = rest.length ∧ s.fetchesForAll rest = rest.length ⌈/⌉ s.pageSize + 1 := by
  rw [isFull, reading] at h
  rw [fetchesForAll]
  rw [wanted] at *
  cases hmax : s.maxItems with
  | none => exact ⟨rfl, rfl⟩
  | some most =>
    rw [hmax] at h
    dsimp only [Option.elim, Option.any] at *
    have hmost : ¬most ≤ (rest.take most).length := of_decide_eq_false h
    have hlength : (rest.take most).length = min most rest.length := List.length_take
    have hreach : ¬most ≤ rest.length := by omega
    rw [if_neg hreach, hlength]
    exact ⟨by omega, rfl⟩

private theorem drop_take_cons (rest : List ρ) {limit : Nat} (hlimit : count < limit) (hcount : count < rest.length) :
    (rest.take limit).drop count = rest[count] :: (rest.take limit).drop (count + 1) := by
  have hlength : count < (rest.take limit).length := by
    rw [List.length_take]
    omega
  rw [List.drop_eq_getElem_cons hlength, List.getElem_take]

/-- Only the requests, in the order in which they were made. -/
def Requested (s : OffsetSource ρ) (log : List (FetchRecord σ ρ)) (pages : Nat) : Prop :=
  log.map (·.request) = (List.range pages).map s.requestAt

private theorem Requested.next (h : s.Requested log count) (answer : Except Failure (Page ρ)) (w w' : σ) :
    s.Requested (log ++ [⟨s.requestAt count, answer, w, w'⟩]) (count + 1) := by
  rw [Requested] at *
  rw [List.map_append, h, List.range_succ, List.map_append]
  rfl

/-- More pulls take no fewer fetches. -/
private theorem fetchesFor_le_succ (hsize : 0 < s.pageSize) (rest : List ρ) (count : Nat) :
    s.fetchesFor rest count ≤ s.fetchesFor rest (count + 1) := by
  rw [fetchesFor, fetchesFor]
  rcases Nat.lt_trichotomy count (s.wanted rest).length with hwithin | hend | hpast
  · have hnext : count + 1 ≤ (s.wanted rest).length := hwithin
    rw [if_pos hwithin.le, if_pos hnext]
    exact (gc_mul_ceilDiv hsize).monotone_l (Nat.le_succ count)
  · have hover : ¬count + 1 ≤ (s.wanted rest).length := by omega
    rw [if_pos hend.le, if_neg hover, hend]
    cases hfull : (s.reading rest (s.wanted rest).length).isFull with
    | true => exact (fetchesForAll_of_full hfull).ge
    | false =>
      obtain ⟨hlength, hall⟩ := wanted_of_not_full hfull
      rw [hlength, hall]
      exact Nat.le_succ _
  · have hnow : ¬count ≤ (s.wanted rest).length := by omega
    have hover : ¬count + 1 ≤ (s.wanted rest).length := by omega
    rw [if_neg hnow, if_neg hover]

variable (hserver : fetch.Serves collection s.request) (hrest : rest = collection.drop s.offset.toNat)
include hserver hrest

/-- A page whose start has not run over. -/
private theorem fetch_page (page : Nat) (hroom : s.offset.toNat + s.pageSize * page < 2 ^ 64) (w : σ) : ∃ answer w',
    (fetch (s.requestAt page)).run w = some (.ok answer, w') ∧
      answer.records.take s.pageSize = (rest.drop (s.pageSize * page)).take s.pageSize := by
  obtain ⟨answer, w', hrun, hpart, hlength⟩ := hserver (s.place page) w
  have hcut : answer.records.take s.pageSize = (collection.drop (s.place page).toNat).take s.pageSize :=
    Fetch.take_of_serves hpart hlength
  refine ⟨answer, w', hrun, ?_⟩
  rw [hcut, hrest, toNat_place, Nat.mod_eq_of_lt hroom, List.drop_drop]

variable (hactive : s.state = .active) (hsize : 0 < s.pageSize)
include hactive hsize

/-- The next record needs a page, and that is not empty. -/
private theorem next_across (h : count < (s.wanted rest).length) (hempty : s.pageSize * (count ⌈/⌉ s.pageSize) = count)
    (hroom : s.offset.toNat + s.pageSize * (count ⌈/⌉ s.pageSize) < 2 ^ 64)
    (hlog : s.Requested log (count ⌈/⌉ s.pageSize)) : ∃ log' w',
      (next fetch.logged).run (s.reading rest count, log, w) =
        some (.ok rest[count]?, s.reading rest (count + 1), log', w') ∧
      s.Requested log' (count ⌈/⌉ s.pageSize + 1) := by
  have hcount : count < rest.length := lt_of_lt_of_le h (s.wanted_length_le rest)
  have hfull : (count + 1) ⌈/⌉ s.pageSize = count ⌈/⌉ s.pageSize + 1 := pages_next_full hsize hempty
  have hlimit : s.pageSize * (count ⌈/⌉ s.pageSize + 1) = count + s.pageSize := by
    rw [Nat.mul_add, hempty, Nat.mul_one]
  obtain ⟨page, w', hfetch, hpage⟩ := fetch_page hserver hrest _ hroom w
  have hnone : (s.reading rest count).buffer = [] := by
    rw [reading]
    dsimp only
    rw [hempty, List.drop_take_self]
  have hbuffer : page.records.take s.pageSize = rest[count] :: (s.reading rest (count + 1)).buffer := by
    rw [hpage, hempty, reading, hfull, hlimit]
    dsimp only
    rw [← drop_take_cons rest (Nat.lt_add_of_pos_right hsize) hcount, List.drop_take, Nat.add_sub_cancel_left]
  have hrecords : page.records.isEmpty = false := by
    cases hcases : page.records with
    | nil =>
      rw [hcases, List.take_nil] at hbuffer
      cases hbuffer
    | cons record records => rfl
  have hpop : ((s.reading rest count).accept page).pop = (rest[count]?, s.reading rest (count + 1)) := by
    rw [List.getElem?_eq_getElem hcount, pop, accept]
    dsimp only [reading]
    rw [hbuffer, hrecords]
    dsimp only [reading]
    rw [hfull, place_succ]
    rfl
  have hnext := next_of_page (reading_going hactive rest count) (isFull_reading h) hnone (Fetch.run_logged hfetch log) hpop
  exact ⟨_, w', hnext, hlog.next (.ok page) w w'⟩

private theorem next_within (h : count < (s.wanted rest).length)
    (hroom : s.offset.toNat + s.pageSize * ((count + 1) ⌈/⌉ s.pageSize) < 2 ^ 64)
    (hlog : s.Requested log (count ⌈/⌉ s.pageSize)) : ∃ log' w',
      (next fetch.logged).run (s.reading rest count, log, w) =
        some (.ok rest[count]?, s.reading rest (count + 1), log', w') ∧
      s.Requested log' ((count + 1) ⌈/⌉ s.pageSize) := by
  have hcount : count < rest.length := lt_of_lt_of_le h (s.wanted_length_le rest)
  rcases Nat.lt_or_eq_of_le (pages_within hsize : count ≤ _) with hbuffered | hempty
  · have hsame : (count + 1) ⌈/⌉ s.pageSize = count ⌈/⌉ s.pageSize := pages_next_within hsize hbuffered
    have hbuffer : (s.reading rest count).buffer = rest[count] :: (s.reading rest (count + 1)).buffer := by
      rw [reading, reading, hsame]
      exact drop_take_cons rest hbuffered hcount
    refine ⟨log, w, ?_, by rwa [hsame]⟩
    rw [next_of_buffer (reading_going hactive rest count) (isFull_reading h) hbuffer,
      List.getElem?_eq_getElem hcount, reading, reading, hsame]
  · have hfull : (count + 1) ⌈/⌉ s.pageSize = count ⌈/⌉ s.pageSize + 1 := pages_next_full hsize hempty.symm
    rw [hfull, Nat.mul_succ] at hroom
    rw [hfull]
    exact next_across hserver hrest hactive hsize h hempty.symm (by omega) hlog

/-- When all that is wanted is delivered, the next pull says so; without a maximum within reach it fetches once more. -/
private theorem next_at_end (hroom : s.offset.toNat + s.pageSize * s.fetchesForAll rest < 2 ^ 64)
    (hlog : s.Requested log ((s.wanted rest).length ⌈/⌉ s.pageSize)) : ∃ s' log' w',
    (next fetch.logged).run (s.reading rest (s.wanted rest).length, log, w) = some (.ok none, s', log', w') ∧
      s'.state = .exhausted ∧ s.Requested log' (s.fetchesForAll rest) ∧ s'.fetches = s.fetchesForAll rest := by
  have hgoing : (s.reading rest (s.wanted rest).length).state.settled? ρ = none := reading_going hactive rest _
  cases hfull : (s.reading rest (s.wanted rest).length).isFull with
  | true =>
    have hall : s.fetchesForAll rest = (s.wanted rest).length ⌈/⌉ s.pageSize := fetchesForAll_of_full hfull
    refine ⟨_, log, w, next_of_full hgoing hfull _, rfl, ?_, ?_⟩
    · rwa [hall]
    · exact hall.symm
  | false =>
    -- The page after the last record is empty.
    obtain ⟨hlength, hall⟩ := wanted_of_not_full hfull
    rw [hlength] at hlog hgoing hfull ⊢
    have hpages : rest.length ≤ s.pageSize * (rest.length ⌈/⌉ s.pageSize) := pages_within hsize
    rw [hall, Nat.mul_succ] at hroom
    obtain ⟨page, w', hfetch, hpage⟩ := fetch_page hserver hrest (rest.length ⌈/⌉ s.pageSize) (by omega) w
    have hnone : (s.reading rest rest.length).buffer = [] := by
      rw [reading]
      dsimp only
      rw [List.take_of_length_le hpages, List.drop_length]
    have htake : page.records.take s.pageSize = [] := by
      rw [hpage, List.drop_of_length_le hpages, List.take_nil]
    have hpop : ((s.reading rest rest.length).accept page).pop =
        (none, { (s.reading rest rest.length).accept page with state := .exhausted }) := by
      rw [pop, accept]
      dsimp only [reading]
      rw [htake]
    refine ⟨_, _, w', next_of_page hgoing hfull hnone (Fetch.run_logged hfetch _) hpop, rfl, ?_, hall.symm⟩
    rw [hall]
    exact hlog.next (.ok page) w w'

/-- How so many pulls leave a source and the log of its requests. -/
private def Pulled (s : OffsetSource ρ) (rest : List ρ) (pulls : Nat) (s' : OffsetSource ρ) (log : List (FetchRecord σ ρ)) :
    Prop :=
  (if pulls ≤ (s.wanted rest).length then s' = s.reading rest pulls
    else s'.state = .exhausted ∧ s'.fetches = s.fetchesForAll rest) ∧
  s.Requested log (s.fetchesFor rest pulls)

private theorem next_pulled {s' : OffsetSource ρ} (h : s.Pulled rest count s' log)
    (hroom : s.offset.toNat + s.pageSize * s.fetchesFor rest (count + 1) < 2 ^ 64) : ∃ s'' log' w',
    (next fetch.logged).run (s', log, w) = some (.ok (s.wanted rest)[count]?, s'', log', w') ∧
      s.Pulled rest (count + 1) s'' log' := by
  obtain ⟨hsource, hlog⟩ := h
  rw [fetchesFor] at hlog hroom
  rcases Nat.lt_trichotomy count (s.wanted rest).length with hwithin | hend | hpast
  · have hnext : count + 1 ≤ (s.wanted rest).length := hwithin
    rw [if_pos hwithin.le] at hsource hlog
    rw [if_pos hnext] at hroom
    obtain ⟨log', w', hrun, hlog'⟩ := next_within (w := w) hserver hrest hactive hsize hwithin hroom hlog
    refine ⟨s.reading rest (count + 1), log', w', ?_, ?_⟩
    · rw [hsource, getElem?_wanted hwithin, hrun]
    · rw [Pulled, fetchesFor, if_pos hnext, if_pos hnext]
      exact ⟨rfl, hlog'⟩
  · have hover : ¬count + 1 ≤ (s.wanted rest).length := by omega
    rw [if_pos hend.le] at hsource hlog
    rw [hend] at hsource hlog
    rw [if_neg hover] at hroom
    obtain ⟨s'', log', w', hrun, hstate, hlog', hfetches⟩ := next_at_end (w := w) hserver hrest hactive hsize hroom hlog
    refine ⟨s'', log', w', ?_, ?_⟩
    · rw [hsource, hrun, List.getElem?_eq_none hend.ge]
    · rw [Pulled, fetchesFor, if_neg hover, if_neg hover]
      exact ⟨⟨hstate, hfetches⟩, hlog'⟩
  · have hnow : ¬count ≤ (s.wanted rest).length := by omega
    have hover : ¬count + 1 ≤ (s.wanted rest).length := by omega
    rw [if_neg hnow] at hsource hlog
    have hsettled : s'.state.settled? ρ = some (.ok none) := by
      rw [hsource.1]
      rfl
    refine ⟨s', log, w, ?_, ?_⟩
    · rw [next_of_settled hsettled, List.getElem?_eq_none hpast.le]
    · rw [Pulled, fetchesFor, if_neg hover, if_neg hover]
      exact ⟨hsource, hlog⟩

private theorem times_pulled {s' : OffsetSource ρ} (h : s.Pulled rest 0 s' log) (pulls : Nat)
    (hroom : s.offset.toNat + s.pageSize * s.fetchesFor rest pulls < 2 ^ 64) : ∃ s'' log' w',
    ((next fetch.logged).times pulls).run (s', log, w) =
      some (.ok ((List.range pulls).map fun i => (s.wanted rest)[i]?), s'', log', w') ∧
    s.Pulled rest pulls s'' log' := by
  induction pulls with
  | zero => exact ⟨s', log, w, rfl, h⟩
  | succ pulls ih =>
    have hfewer := Nat.mul_le_mul_left s.pageSize (fetchesFor_le_succ hsize rest pulls)
    obtain ⟨s₁, log₁, w₁, hearlier, hpulled⟩ := ih (by omega)
    obtain ⟨s₂, log₂, w₂, hlast, hnext⟩ := next_pulled (w := w₁) hserver hrest hactive hsize hpulled hroom
    refine ⟨s₂, log₂, w₂, ?_, hnext⟩
    rw [Effect.run_times_succ hearlier hlast, List.range_succ, List.map_append]
    rfl

end Pulls

variable {fetch : Fetch σ ρ} {collection rest : List ρ} {source : OffsetSource ρ} {label : String} {size : Nat}
  {start : UInt64} {most : Option Nat} {first last : Option String}

/-- However a server cuts and over-fills its pages, the pulls from a new source answer what follows the start, up to the
maximum, and then nothing for ever. The pages follow each other by the stride, and none is fetched once the maximum is
reached or an empty page is seen. All this is so as long as the fetches do not take the offset past its greatest value. -/
theorem delivers_collection (hnew : source = new label size start most first last)
    (hserver : fetch.Serves collection source.request) (hrest : rest = collection.drop start.toNat) (pulls : Nat)
    (hroom : start.toNat + max size 1 * source.fetchesFor rest pulls < 2 ^ 64) (w : σ) : ∃ ended log w',
    ((next fetch.logged).times pulls).run (source, [], w) =
      some (.ok ((List.range pulls).map fun i => (most.elim rest rest.take)[i]?), ended, log, w') ∧
    log.map (·.request) = (List.range (source.fetchesFor rest pulls)).map (fun page =>
      ⟨max size 1, .offset (start.toNat + max size 1 * page), first, last⟩) ∧
    ended.fetches = source.fetchesFor rest pulls := by
  have hstride : source.pageSize = max size 1 := by rw [hnew, new]
  have hoffset : source.offset = start := by rw [hnew, new]
  have hsize : 0 < source.pageSize := by
    rw [hstride]
    exact Nat.lt_of_lt_of_le Nat.zero_lt_one (Nat.le_max_right _ _)
  have hactive : source.state = .active := by rw [hnew, new]
  have hwanted : source.wanted rest = most.elim rest rest.take := by rw [hnew, wanted, new]
  have hstart : source.Pulled rest 0 source ([] : List (FetchRecord σ ρ)) := by
    rw [Pulled, fetchesFor, if_pos (Nat.zero_le _), if_pos (Nat.zero_le _), zero_ceilDiv]
    refine ⟨?_, rfl⟩
    rw [reading, zero_ceilDiv, place_zero, hnew, new]
    rfl
  rw [← hstride, ← hoffset] at hroom
  rw [← hoffset] at hrest
  obtain ⟨ended, log, w', hrun, hended, hlog⟩ := times_pulled (w := w) hserver hrest hactive hsize hstart pulls hroom
  refine ⟨ended, log, w', ?_, ?_, ?_⟩
  · rw [hrun, hwanted]
  · -- No page of the log starts past the greatest offset.
    rw [hlog]
    refine List.map_congr_left fun page hpage => ?_
    have hearlier := Nat.mul_le_mul_left source.pageSize (List.mem_range.mp hpage).le
    rw [requestAt, toNat_place, Nat.mod_eq_of_lt (by omega), hoffset, hstride, hnew, request, new]
  · rw [fetchesFor]
    split at hended
    · rename_i hwithin
      rw [hended, if_pos hwithin, reading]
    · rename_i hpast
      rw [if_neg hpast, hended.2]

/-- A server that answers all that follows the offset, however little is asked for. -/
def spill (collection : List ρ) : Fetch Unit ρ := fun request => .ofStep fun w =>
  let skip := match request.position with
    | .offset n => n
    | .cursor _ => 0
  (.ok ⟨collection.drop skip, none⟩, w)

theorem spill_serves (collection : List ρ) (request : PageRequest) : (spill collection).Serves collection request := by
  intro offset w
  refine ⟨⟨collection.drop offset.toNat, none⟩, w, rfl, List.prefix_refl _, ?_⟩
  rw [List.length_drop]
  exact Nat.min_le_right _ _

theorem delivers_three_of_six : ∃ ended log w',
    ((next (spill [10, 11, 12, 13, 14, 15]).logged).times 5).run (new "orders" 2 1 (some 3), [], ()) =
      some (.ok [some 11, some 12, some 13, none, none], ended, log, w') ∧
    log.map (·.request) = [⟨2, .offset 1, none, none⟩, ⟨2, .offset 3, none, none⟩] ∧ ended.fetches = 2 :=
  delivers_collection rfl (spill_serves _ _) rfl 5 (by decide) ()

/-- With a stride that takes the offset past its greatest value, a source comes back to the records before its start and
delivers the others twice. -/
theorem delivers_again_past_greatest :
    (spill [10, 11, 12]).Serves [10, 11, 12] (new "orders" (2 ^ 64 - 1) 1 : OffsetSource Nat).request ∧
    ∃ ended log w', ((next (spill [10, 11, 12]).logged).times 6).run (new "orders" (2 ^ 64 - 1) 1, [], ()) =
      some (.ok [some 11, some 12, some 10, some 11, some 12, none], ended, log, w') ∧
    log.map (·.request.position) = [.offset 1, .offset 0, .offset (2 ^ 64 - 1)] :=
  ⟨spill_serves _ _, _, _, _, rfl, rfl⟩

end BatchExport.OffsetSource
