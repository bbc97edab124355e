import BatchExport.Proofs.Paging.OffsetSource
import BatchExport.Proofs.Paging.Script

/-! An offset source over a server that answers whatever it does: pages of any length, and failures. Main statement:
what any number of pulls answer, what they ask the server for, and when they do. -/
namespace BatchExport

variable {ρ : Type}

/-- The records of the first pages of a script, each page cut to the size, up to the first that is empty or missing. -/
def scriptRecords (script : Nat → Except Failure (Page ρ)) (size pages : Nat) : List ρ :=
  (((List.range pages).map script).takeWhile fun answer => !(recordsOf answer).isEmpty).flatMap fun answer =>
    (recordsOf answer).take size

section Script

variable {script : Nat → Except Failure (Page ρ)} {size k pages : Nat}

private theorem scriptRecords_append (size : Nat) (hfull : ∀ i < k, recordsOf (script i) ≠ []) (rest : Nat) :
    scriptRecords script size (k + rest) =
      (((List.range k).map script).flatMap fun answer => (recordsOf answer).take size) ++
        scriptRecords (fun i => script (k + i)) size rest := by
  have hall : ∀ answer ∈ (List.range k).map script, (!(recordsOf answer).isEmpty) = true := by
    intro answer hanswer
    obtain ⟨i, hi, rfl⟩ := List.mem_map.mp hanswer
    simpa using hfull i (List.mem_range.mp hi)
  rw [scriptRecords, List.range_add, List.map_append, List.takeWhile_append_of_pos hall, List.flatMap_append,
    List.map_map]
  rfl

theorem scriptRecords_of_full (hfull : ∀ i < k, recordsOf (script i) ≠ []) :
    scriptRecords script size k = ((List.range k).map script).flatMap fun answer => (recordsOf answer).take size := by
  have h := scriptRecords_append size hfull 0
  rw [Nat.add_zero] at h
  rw [h]
  exact List.append_nil _

theorem scriptRecords_succ (hfull : ∀ i < k + 1, recordsOf (script i) ≠ []) :
    scriptRecords script size (k + 1) = scriptRecords script size k ++ (recordsOf (script k)).take size := by
  rw [scriptRecords_of_full hfull, scriptRecords_of_full fun i hi => hfull i (Nat.lt_succ_of_lt hi), List.range_succ,
    List.map_append, List.flatMap_append]
  exact congrArg _ (List.append_nil _)

/-- More pages leave the records as they are at the beginning. -/
theorem scriptRecords_prefix (hfull : ∀ i < k, recordsOf (script i) ≠ []) (hpages : k ≤ pages) :
    scriptRecords script size k <+: scriptRecords script size pages := by
  obtain ⟨rest, rfl⟩ := Nat.exists_eq_add_of_le hpages
  rw [scriptRecords_append size hfull rest, scriptRecords_of_full hfull]
  exact List.prefix_append _ _

/-- Nothing follows an empty page, or none. -/
theorem scriptRecords_of_end (hfull : ∀ i < k, recordsOf (script i) ≠ []) (hend : recordsOf (script k) = [])
    (hpages : k ≤ pages) : scriptRecords script size pages = scriptRecords script size k := by
  obtain ⟨rest, rfl⟩ := Nat.exists_eq_add_of_le hpages
  have hnone : scriptRecords (fun i => script (k + i)) size rest = [] := by
    cases rest with
    | zero => rfl
    | succ rest =>
      rw [scriptRecords, List.range_succ_eq_map, List.map_cons, List.takeWhile_cons]
      simp [hend]
  rw [scriptRecords_append size hfull rest, hnone, List.append_nil, scriptRecords_of_full hfull]

end Script

namespace OffsetSource

/-- What holds after any number of pulls from a source with this page size, start, maximum and range. Offsets have 64
bits. -/
structure SoFar (script : Nat → Except Failure (Page ρ)) (size : Nat) (start : UInt64) (most : Option Nat)
    (first last : Option String) (answers : List (Except Failure (Option ρ))) (s : OffsetSource ρ)
    (log : List (FetchRecord Nat ρ)) : Prop where
  /-- The pulls deliver as many records as they can: however many pages one looks at, those are the first of them. -/
  records : ∀ pages, answers.length ≤ pages → answers.filterMap pulled? =
    (most.elim (scriptRecords script size pages) (scriptRecords script size pages).take).take answers.length
  requests : log = (List.range log.length).map fun i =>
    ⟨⟨size, .offset ((start.toNat + size * i) % 2 ^ 64), first, last⟩, script i, i, i + 1⟩
  fetches : s.fetches = log.countP (·.answer.isOk)
  offset : s.offset.toNat = (start.toNat + size * s.fetches) % 2 ^ 64
  delivered : s.delivered = (answers.filterMap pulled?).length
  maximum : ∀ m ∈ most, s.delivered ≤ m
  buffer : s.buffer.length ≤ size

/-- What a pull does after these. -/
structure NextPull (script : Nat → Except Failure (Page ρ)) (size : Nat) (most : Option Nat)
    (answers : List (Except Failure (Option ρ))) (s : OffsetSource ρ) (log : List (FetchRecord Nat ρ))
    (answer : Except Failure (Option ρ)) (s' : OffsetSource ρ) (log' : List (FetchRecord Nat ρ)) : Prop where
  /-- A request is sent only when all the records before it are delivered, and fewer than the maximum. -/
  sent : log' ≠ log → log'.length = log.length + 1 ∧
    answers.filterMap pulled? = scriptRecords script size log.length ∧ ∀ m ∈ most, s.delivered < m
  failed : log' ≠ log → ∀ f, script log.length = .error f →
    answer = .error f ∧ s'.offset = s.offset ∧ s'.fetches = s.fetches
  ended : .ok none ∈ answers → answer = .ok none ∧ log' = log
  aborted : (∃ f, .error f ∈ answers) → (∃ reason, answer = .error (.sourceAborted reason)) ∧ log' = log
  /-- There is no failure but that of a fetch. -/
  own : ∀ f, answer = .error f → (∃ f', .error f' ∈ answers) ∨ log' ≠ log ∧ script log.length = .error f

section Stages

variable {script : Nat → Except Failure (Page ρ)} {source s : OffsetSource ρ} {records buffer : List ρ} {pages : Nat}

/-- The log of the first fetches from a script. -/
def fetched (source : OffsetSource ρ) (script : Nat → Except Failure (Page ρ)) (count : Nat) :
    List (FetchRecord Nat ρ) :=
  (List.range count).map fun i => ⟨source.requestAt i, script i, i, i + 1⟩

theorem fetched_succ (source : OffsetSource ρ) (script : Nat → Except Failure (Page ρ)) (count : Nat) :
    source.fetched script (count + 1) =
      source.fetched script count ++ [⟨source.requestAt count, script count, count, count + 1⟩] := by
  rw [fetched, fetched, List.range_succ, List.map_append]
  rfl

theorem length_fetched (source : OffsetSource ρ) (script : Nat → Except Failure (Page ρ)) (count : Nat) :
    (source.fetched script count).length = count := by
  rw [fetched, List.length_map, List.length_range]

/-- The source after so many pages, with so many records out and those in the buffer. -/
def after (source : OffsetSource ρ) (pages delivered : Nat) (buffer : List ρ) (state : SourceState) : OffsetSource ρ :=
  { source with
    offset := source.place pages
    fetches := pages
    buffer, delivered, state }

private theorem after_new (label : String) (size : Nat) (start : UInt64) (most : Option Nat) (first last : Option String) :
    (new label size start most first last : OffsetSource ρ).after 0 0 [] .active = new label size start most first last := by
  rw [after, place_zero]
  rfl

theorem accept_after (source : OffsetSource ρ) (pages delivered : Nat) (page : Page ρ) :
    (source.after pages delivered [] .active).accept page =
      source.after (pages + 1) delivered (page.records.take source.pageSize)
        (if page.records.isEmpty then .exhausted else .active) := by
  rw [accept, after, after, place_succ]

/-- What a source that has failed at a page says from then on. -/
def abortReason (source : OffsetSource ρ) (page : Nat) (f : Failure) : String :=
  source.label ++ s!" failed at offset {source.place page}: " ++ f.message

/-- Nothing is left to deliver. -/
private structure Whole (script : Nat → Except Failure (Page ρ)) (source : OffsetSource ρ) (records : List ρ)
    (pages : Nat) : Prop where
  all : ∀ n, records.length < n → source.wanted (scriptRecords script source.pageSize n) = records
  answers : ∀ i < pages, (script i).isOk = true
  within : ∀ most ∈ source.maxItems, records.length ≤ most

/-- What the pulls so far have answered, where they have left the source, and how many fetches there were. -/
private inductive Stage (script : Nat → Except Failure (Page ρ)) (source : OffsetSource ρ) :
    List (Except Failure (Option ρ)) → OffsetSource ρ → Nat → Prop
  | going (records buffer : List ρ) (pages : Nat) (full : ∀ i < pages, recordsOf (script i) ≠ [])
      (flow : records ++ buffer = scriptRecords script source.pageSize pages) (few : pages ≤ records.length)
      (small : buffer.length ≤ source.pageSize) (within : ∀ most ∈ source.maxItems, records.length ≤ most) :
      Stage script source (answered records) (source.after pages records.length buffer .active) pages
  | ended (records : List ρ) (pages more : Nat) (whole : Whole script source records pages) :
      Stage script source (answered records ++ List.replicate (more + 1) (.ok none))
        (source.after pages records.length [] .exhausted) pages
  | aborted (records : List ρ) (pages more : Nat) (f : Failure) (failed : script pages = .error f)
      (whole : Whole script source records pages) :
      Stage script source
        (answered records ++ .error f :: List.replicate more (.error (.sourceAborted (source.abortReason pages f))))
        (source.after pages records.length [] (.aborted (source.abortReason pages f))) (pages + 1)

private theorem isOk_of_full (full : ∀ i < pages, recordsOf (script i) ≠ []) (i : Nat) (hi : i < pages) :
    (script i).isOk = true := by
  have h := full i hi
  cases hscript : script i with
  | ok page => rfl
  | error f =>
    rw [hscript] at h
    exact absurd rfl h

/-- When the next page is empty or missing, nothing is left. -/
private theorem Whole.of_end (full : ∀ i < pages, recordsOf (script i) ≠ []) (hend : recordsOf (script pages) = [])
    (flow : records = scriptRecords script source.pageSize pages) (few : pages ≤ records.length)
    (within : ∀ most ∈ source.maxItems, records.length ≤ most) : Whole script source records pages := by
  refine ⟨fun n hn => ?_, isOk_of_full full, within⟩
  rw [scriptRecords_of_end full hend (Nat.le_trans few hn.le), ← flow, wanted]
  cases hmost : source.maxItems with
  | none => rfl
  | some most => exact List.take_of_length_le (within most hmost)

/-- When the maximum is reached, nothing is left. -/
private theorem Whole.of_maximum (full : ∀ i < pages, recordsOf (script i) ≠ [])
    (flow : records ++ buffer = scriptRecords script source.pageSize pages) (few : pages ≤ records.length)
    (hmost : source.maxItems = some records.length) : Whole script source records pages := by
  refine ⟨fun n hn => ?_, isOk_of_full full, fun most h => ?_⟩
  · have hprefix : records <+: scriptRecords script source.pageSize n :=
      (List.prefix_append _ _).trans (flow ▸ scriptRecords_prefix full (Nat.le_trans few hn.le))
    rw [wanted, hmost]
    exact (List.prefix_iff_eq_take.mp hprefix).symm
  · rw [hmost] at h
    cases h
    exact Nat.le_refl _

/-- A page from which a record is taken at once. -/
private theorem Stage.page {page : Page ρ} {record : ρ} {rest : List ρ}
    (full : ∀ i < pages, recordsOf (script i) ≠ []) (flow : records = scriptRecords script source.pageSize pages)
    (few : pages ≤ records.length) (within : ∀ most ∈ source.maxItems, records.length < most)
    (hpage : script pages = .ok page) (hrecords : page.records.take source.pageSize = record :: rest) :
    Stage script source (answered (records ++ [record]))
      (source.after (pages + 1) (records ++ [record]).length rest .active) (pages + 1) := by
  have hlength : (record :: rest).length ≤ source.pageSize := hrecords ▸ List.length_take_le _ _
  have hfull : ∀ i < pages + 1, recordsOf (script i) ≠ [] := by
    intro i hi
    obtain hi | rfl := Nat.lt_succ_iff_lt_or_eq.mp hi
    · exact full i hi
    · rw [hpage]
      intro hnone
      rw [show page.records = [] from hnone, List.take_nil] at hrecords
      cases hrecords
  refine .going _ rest (pages + 1) hfull ?_ ?_ ?_ ?_
  · rw [scriptRecords_succ hfull, hpage, ← flow]
    change _ = records ++ page.records.take source.pageSize
    rw [hrecords]
    simp
  · rw [List.length_append]
    exact Nat.succ_le_succ few
  · exact Nat.le_of_succ_le hlength
  · intro most hmost
    rw [List.length_append]
    exact within most hmost

section Pull

variable {size : Nat} {most : Option Nat} {answers : List (Except Failure (Option ρ))} {s' : OffsetSource ρ}
  {log : List (FetchRecord Nat ρ)} {answer : Except Failure (Option ρ)}

private theorem NextPull.quiet (hended : .ok none ∈ answers → answer = .ok none)
    (haborted : (∃ f, .error f ∈ answers) → ∃ reason, answer = .error (.sourceAborted reason))
    (hown : ∀ f, answer = .error f → ∃ f', .error f' ∈ answers) :
    NextPull script size most answers s log answer s' log where
  sent h := absurd rfl h
  failed h := absurd rfl h
  ended h := ⟨hended h, rfl⟩
  aborted h := ⟨haborted h, rfl⟩
  own f h := .inl (hown f h)

/-- A pull without a fetch while the source is going. -/
private theorem NextPull.going {record? : Option ρ} :
    NextPull script size most (answered records) s log (.ok record?) s' log :=
  .quiet (absurd · none_not_mem_answered) (absurd · error_not_mem_answered) fun f h => by cases h

private theorem NextPull.fetch (flow : records = scriptRecords script source.pageSize pages)
    (within : ∀ most ∈ source.maxItems, records.length < most)
    (hfailed : ∀ f, script pages = .error f →
      answer = .error f ∧ s'.offset = source.place pages ∧ s'.fetches = pages)
    (hown : ∀ f, answer = .error f → script pages = .error f) :
    NextPull script source.pageSize source.maxItems (answered records) (source.after pages records.length [] .active)
      (source.fetched script pages) answer s' (source.fetched script (pages + 1)) := by
  have hlonger : (source.fetched script (pages + 1)).length = (source.fetched script pages).length + 1 := by
    rw [length_fetched, length_fetched]
  have hne : source.fetched script (pages + 1) ≠ source.fetched script pages := by
    intro h
    rw [h] at hlonger
    omega
  rw [length_fetched] at hlonger
  refine ⟨fun _ => ⟨by rw [length_fetched]; exact hlonger, ?_, within⟩, fun _ f hf => ?_,
    (absurd · none_not_mem_answered), (absurd · error_not_mem_answered), fun f hf => .inr ⟨hne, ?_⟩⟩
  · rw [filterMap_answered, length_fetched]
    exact flow
  · rw [length_fetched] at hf
    exact hfailed f hf
  · rw [length_fetched]
    exact hown f hf

end Pull

/-- A pull leads from a stage to the next one. -/
private def Goes (script : Nat → Except Failure (Page ρ)) (source : OffsetSource ρ)
    (answers : List (Except Failure (Option ρ))) (s : OffsetSource ρ) (count : Nat) : Prop :=
  ∃ answer s' count', (next (Fetch.scripted script).logged).run (s, source.fetched script count, count) =
      some (answer, s', source.fetched script count', count') ∧
    Stage script source (answers ++ [answer]) s' count' ∧
    NextPull script source.pageSize source.maxItems answers s (source.fetched script count) answer s'
      (source.fetched script count')

private theorem Goes.of_ended (more : Nat) (whole : Whole script source records pages) :
    Goes script source (answered records ++ List.replicate (more + 1) (.ok none))
      (source.after pages records.length [] .exhausted) pages := by
  refine ⟨.ok none, _, _, next_of_settled rfl _, ?_, .quiet (fun _ => rfl) ?_ fun f h => by cases h⟩
  · rw [List.append_assoc, ← List.replicate_succ']
    exact .ended records _ (more + 1) whole
  · rintro ⟨f, hf⟩
    obtain hf | hf := List.mem_append.mp hf
    · exact absurd ⟨f, hf⟩ error_not_mem_answered
    · cases (List.mem_replicate.mp hf).2

private theorem Goes.of_aborted (more : Nat) {f : Failure} (failed : script pages = .error f)
    (whole : Whole script source records pages) : Goes script source
      (answered records ++ .error f :: List.replicate more (.error (.sourceAborted (source.abortReason pages f))))
      (source.after pages records.length [] (.aborted (source.abortReason pages f))) (pages + 1) := by
  refine ⟨.error (.sourceAborted (source.abortReason pages f)), _, _, next_of_settled rfl _, ?_,
    .quiet ?_ (fun _ => ⟨_, rfl⟩) fun _ _ => ⟨f, by simp⟩⟩
  · rw [List.append_assoc, List.cons_append, ← List.replicate_succ']
    exact .aborted records _ (more + 1) f failed whole
  · intro hnone
    obtain hnone | hnone := List.mem_append.mp hnone
    · exact absurd hnone none_not_mem_answered
    · simp at hnone

/-- A source that is going and has an empty buffer, while the maximum is not reached. -/
private theorem Goes.of_empty (hsize : 0 < source.pageSize) (full : ∀ i < pages, recordsOf (script i) ≠ [])
    (flow : records = scriptRecords script source.pageSize pages) (few : pages ≤ records.length)
    (within : ∀ most ∈ source.maxItems, records.length < most)
    (hopen : (source.after pages records.length [] .active).isFull = false) :
    Goes script source (answered records) (source.after pages records.length [] .active) pages := by
  have within' : ∀ most ∈ source.maxItems, records.length ≤ most := fun most hmost => (within most hmost).le
  have hfetch : (Fetch.scripted script (source.requestAt pages)).run pages = some (script pages, pages + 1) := rfl
  cases hscript : script pages with
  | error f =>
    have hnone : recordsOf (script pages) = [] := by rw [hscript]; rfl
    rw [hscript] at hfetch
    refine ⟨.error f, source.after pages records.length [] (.aborted (source.abortReason pages f)), pages + 1, ?_,
      .aborted records pages 0 f hscript (.of_end full hnone flow few within'), .fetch flow within ?_ ?_⟩
    · rw [next_of_failure rfl hopen rfl (Fetch.run_logged hfetch _), fetched_succ, hscript]
      rfl
    · intro f' hf'
      cases hscript.symm.trans hf'
      exact ⟨rfl, rfl, rfl⟩
    · rintro f' ⟨⟩
      exact hscript
  | ok page =>
    rw [hscript] at hfetch
    -- A page that comes is no failure.
    have hpull (record? : Option ρ) (s' : OffsetSource ρ) : NextPull script source.pageSize source.maxItems
        (answered records) (source.after pages records.length [] .active) (source.fetched script pages) (.ok record?) s'
        (source.fetched script (pages + 1)) :=
      .fetch flow within (fun f hf => by cases hscript.symm.trans hf) fun f hf => by cases hf
    cases hrecords : page.records.take source.pageSize with
    | nil =>
      have hnone : page.records = [] := by
        obtain hzero | hnone := List.take_eq_nil_iff.mp hrecords
        · omega
        · exact hnone
      have hend : recordsOf (script pages) = [] := by
        rw [hscript]
        exact hnone
      have hwhole : Whole script source records pages := .of_end full hend flow few within'
      refine ⟨.ok none, source.after (pages + 1) records.length [] .exhausted, pages + 1, ?_,
        .ended records (pages + 1) 0 ⟨hwhole.all, ?_, within'⟩, hpull none _⟩
      · have hpop : ((source.after pages records.length [] .active).accept page).pop =
            (none, source.after (pages + 1) records.length [] .exhausted) := by
          rw [accept_after, hrecords]
          rfl
        rw [next_of_page rfl hopen rfl (Fetch.run_logged hfetch _) hpop, fetched_succ, hscript]
      · intro i hi
        obtain hi | rfl := Nat.lt_succ_iff_lt_or_eq.mp hi
        · exact hwhole.answers i hi
        · rw [hscript]
          rfl
    | cons record rest =>
      have hsome : page.records.isEmpty = false := by
        cases hpage : page.records with
        | nil =>
          rw [hpage, List.take_nil] at hrecords
          cases hrecords
        | cons record records => rfl
      refine ⟨.ok (some record), source.after (pages + 1) (records ++ [record]).length rest .active, pages + 1, ?_, ?_,
        hpull _ _⟩
      · have hpop : ((source.after pages records.length [] .active).accept page).pop =
            (some record, source.after (pages + 1) (records ++ [record]).length rest .active) := by
          rw [accept_after, hrecords, hsome, List.length_append]
          rfl
        rw [next_of_page rfl hopen rfl (Fetch.run_logged hfetch _) hpop, fetched_succ, hscript]
      · rw [answered_snoc]
        exact .page full flow few within hscript hrecords

private theorem Goes.of_going (hsize : 0 < source.pageSize) (full : ∀ i < pages, recordsOf (script i) ≠ [])
    (flow : records ++ buffer = scriptRecords script source.pageSize pages) (few : pages ≤ records.length)
    (small : buffer.length ≤ source.pageSize) (within : ∀ most ∈ source.maxItems, records.length ≤ most) :
    Goes script source (answered records) (source.after pages records.length buffer .active) pages := by
  cases hfull : (source.after pages records.length buffer .active).isFull with
  | true =>
    obtain ⟨most, hmost, hreached⟩ := (Option.any_eq_true _ _).mp hfull
    have hlength : records.length = most :=
      Nat.le_antisymm (within most hmost) (of_decide_eq_true hreached)
    refine ⟨.ok none, _, _, next_of_full rfl hfull _, ?_, .going⟩
    exact .ended records _ 0 (.of_maximum full flow few (hlength ▸ hmost))
  | false =>
    have hopen (most : Nat) (hmost : most ∈ source.maxItems) : records.length < most := by
      have hnot : (source.after pages records.length buffer .active).maxItems.any (· ≤ records.length) = false := hfull
      rw [show (source.after pages records.length buffer .active).maxItems = some most from hmost] at hnot
      exact Nat.lt_of_not_le (of_decide_eq_false hnot)
    cases buffer with
    | cons record rest =>
      refine ⟨.ok (some record), source.after pages (records ++ [record]).length rest .active, _, ?_, ?_, .going⟩
      · rw [next_of_buffer rfl hfull rfl, List.length_append]
        rfl
      · rw [answered_snoc]
        refine .going _ rest _ full (by simpa using flow) ?_ (Nat.le_of_succ_le small) ?_
        · rw [List.length_append]
          exact Nat.le_succ_of_le few
        · intro most hmost
          rw [List.length_append]
          exact hopen most hmost
    | nil =>
      rw [List.append_nil] at flow
      exact .of_empty hsize full flow few hopen hfull

private theorem Stage.goes {answers : List (Except Failure (Option ρ))} {count : Nat} (hsize : 0 < source.pageSize)
    (h : Stage script source answers s count) : Goes script source answers s count := by
  cases h with
  | going records buffer pages full flow few small within => exact .of_going hsize full flow few small within
  | ended records pages more whole => exact .of_ended more whole
  | aborted records pages more f failed whole => exact .of_aborted more failed whole

private theorem times_stage (hsize : 0 < source.pageSize) (h : Stage script source [] source 0) (pulls : Nat) :
    ∃ answers s count, ((next (Fetch.scripted script).logged).attempt.times pulls).run (source, [], 0) =
        some (.ok answers, s, source.fetched script count, count) ∧
      answers.length = pulls ∧ Stage script source answers s count := by
  induction pulls with
  | zero => exact ⟨[], source, 0, rfl, rfl, h⟩
  | succ pulls ih =>
    obtain ⟨answers, s, count, hearlier, hlength, hstage⟩ := ih
    -- A failure is an answer here, so the pulls go on after it.
    obtain ⟨answer, s', count', hlast, hnext, -⟩ := hstage.goes hsize
    refine ⟨answers ++ [answer], s', count', Effect.run_times_succ hearlier (Effect.run_attempt hlast), ?_, hnext⟩
    rw [List.length_append, hlength]
    rfl

private theorem countP_fetched (source : OffsetSource ρ) (h : ∀ i < pages, (script i).isOk = true) :
    (source.fetched script pages).countP (·.answer.isOk) = pages := by
  rw [List.countP_eq_length.mpr ?_, length_fetched]
  intro record hrecord
  obtain ⟨i, hi, rfl⟩ := List.mem_map.mp hrecord
  exact h i (List.mem_range.mp hi)

private theorem prefix_wanted {rest : List ρ} (h : records <+: rest)
    (within : ∀ most ∈ source.maxItems, records.length ≤ most) : records <+: source.wanted rest := by
  rw [wanted]
  cases hmost : source.maxItems with
  | none => exact h
  | some most => exact List.prefix_take_iff.mpr ⟨h, within most hmost⟩

end Stages

section New

variable {script : Nat → Except Failure (Page ρ)} {label : String} {size : Nat} {start : UInt64}
  {most : Option Nat} {first last : Option String} {source : OffsetSource ρ} {answers : List (Except Failure (Option ρ))}
  (hnew : source = new label size start most first last)
include hnew

private theorem SoFar.of {records buffer : List ρ} {pages count : Nat} {state : SourceState}
    (hrecords : answers.filterMap pulled? = records)
    (hall : ∀ n, answers.length ≤ n →
      records = (source.wanted (scriptRecords script source.pageSize n)).take answers.length)
    (hfetches : (source.fetched script count).countP (·.answer.isOk) = pages)
    (within : ∀ most ∈ source.maxItems, records.length ≤ most) (small : buffer.length ≤ source.pageSize) :
    SoFar script (max size 1) start most first last answers (source.after pages records.length buffer state)
      (source.fetched script count) := by
  subst hnew
  refine ⟨fun n hn => hrecords.trans (hall n hn), ?_, hfetches.symm, toNat_place _ _, ?_, within, small⟩
  · rw [length_fetched]
    simp only [fetched, requestAt, toNat_place]
    rfl
  · rw [hrecords]
    rfl

private theorem Stage.soFar {s : OffsetSource ρ} {count : Nat} (h : Stage script source answers s count) :
    SoFar script (max size 1) start most first last answers s (source.fetched script count) := by
  cases h with
  | going records buffer pages full flow few small within =>
    refine .of hnew (filterMap_answered records) (fun n hn => ?_) (countP_fetched source (isOk_of_full full)) within
      small
    rw [length_answered] at hn ⊢
    have hprefix : records <+: scriptRecords script source.pageSize n :=
      (List.prefix_append _ _).trans (flow ▸ scriptRecords_prefix full (Nat.le_trans few hn))
    exact List.prefix_iff_eq_take.mp (prefix_wanted hprefix within)
  | ended records pages more whole =>
    refine .of hnew (filterMap_ended records _) (fun n hn => ?_) (countP_fetched source whole.answers) whole.within
      (Nat.zero_le _)
    rw [List.length_append, length_answered, List.length_replicate] at hn ⊢
    rw [whole.all n (by omega), List.take_of_length_le (by omega)]
  | aborted records pages more f failed whole =>
    refine .of hnew (filterMap_aborted records _ _ _) (fun n hn => ?_) ?_ whole.within (Nat.zero_le _)
    · rw [List.length_append, length_answered, List.length_cons, List.length_replicate] at hn ⊢
      rw [whole.all n (by omega), List.take_of_length_le (by omega)]
    · rw [fetched_succ, List.countP_append, countP_fetched source whole.answers, failed]
      rfl

end New

/-- Whatever a server answers: after any number of pulls, the records delivered are the first that the pages hold, up to
the maximum and up to the first page that is empty or missing, the requests follow each other by the stride modulo 2^64,
and the next pull sends a request only for a record that is due. After the end, and after a failure, nothing is fetched. -/
theorem follows_script (script : Nat → Except Failure (Page ρ)) (label : String) (size : Nat) (start : UInt64)
    (most : Option Nat) (first last : Option String) (pulls : Nat) : ∃ answers s log,
      ((next (Fetch.scripted script).logged).attempt.times pulls).run (new label size start most first last, [], 0) =
        some (.ok answers, s, log, log.length) ∧
      answers.length = pulls ∧
      SoFar script (max size 1) start most first last answers s log ∧
      ∃ answer s' log', (next (Fetch.scripted script).logged).run (s, log, log.length) =
          some (answer, s', log', log'.length) ∧
        NextPull script (max size 1) most answers s log answer s' log' := by
  have hsize : 0 < (new label size start most first last : OffsetSource ρ).pageSize :=
    Nat.lt_of_lt_of_le Nat.zero_lt_one (Nat.le_max_right _ _)
  have hstart : Stage script (new label size start most first last) []
      ((new label size start most first last).after 0 0 [] .active) 0 :=
    .going [] [] 0 (fun i hi => absurd hi (Nat.not_lt_zero i)) rfl (Nat.le_refl _) (Nat.zero_le _)
      fun most _ => Nat.zero_le most
  rw [after_new] at hstart
  obtain ⟨answers, s, count, hrun, hlength, hstage⟩ := times_stage hsize hstart pulls
  obtain ⟨answer, s', count', hnext, -, hpull⟩ := hstage.goes hsize
  refine ⟨answers, s, _, ?_, hlength, hstage.soFar rfl, answer, s', _, ?_, hpull⟩
  · rw [length_fetched]
    exact hrun
  · rw [length_fetched, length_fetched]
    exact hnext

/-- From the greatest offset the stride leads back to the beginning of the collection. -/
theorem stride_starts_again : ∃ s log,
    ((next (Fetch.scripted fun i => .ok ⟨if i = 0 then [1] else [], none⟩).logged).attempt.times 2).run
      (new "orders" 10 (.ofNat (2 ^ 64 - 1)), [], 0) = some (.ok [.ok (some 1), .ok none], s, log, 2) ∧
    log.map (·.request.position) = [.offset (2 ^ 64 - 1), .offset 9] ∧ s.fetches = 2 ∧ s.offset = 19 :=
  ⟨_, _, rfl, rfl, rfl, rfl⟩

/-- The third record of the first page is cut off, and the short page is not the last one. -/
example : (((next (Fetch.scripted fun
    | 0 => .ok ⟨[1, 2, 3], none⟩
    | 1 => .ok ⟨[4], none⟩
    | _ => .ok ⟨[], none⟩)).attempt.times 5).run (new "orders" 2, 0)).map (·.1) =
      some (.ok [.ok (some 1), .ok (some 2), .ok (some 4), .ok none, .ok none]) := rfl

end OffsetSource
end BatchExport
