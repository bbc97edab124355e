import BatchExport.Proofs.Paging.OffsetSource

/-! An offset source on its way through a collection that does not change, whatever its page size. Main statement: what a
pull answers, and how much is left to read after it. -/
namespace BatchExport.OffsetSource

variable {σ ρ : Type} {fetch : Fetch σ ρ} {collection delivered : List ρ} {start : Nat} {most : Option Nat}
  {s : OffsetSource ρ}

/-- The records that a source has in its buffer and those that it has not fetched yet. -/
def unread (s : OffsetSource ρ) (collection : List ρ) : List ρ := s.buffer ++ collection.drop s.offset.toNat

/-- A source that is to go on, after so many records. Only its last page may have held less than the stride. -/
structure Flows (collection : List ρ) (start : Nat) (delivered : List ρ) (s : OffsetSource ρ) : Prop where
  active : s.state = .active
  count : s.delivered = delivered.length
  flow : delivered ++ s.unread collection = collection.drop start
  place : s.offset.toNat = start + s.pageSize * s.fetches
  pages : s.pageSize * s.fetches < delivered.length + s.buffer.length + s.pageSize

/-- A source that has delivered so much of what follows its start. Its offset does not run over before the end. -/
structure Reads (collection : List ρ) (start : Nat) (most : Option Nat) (delivered : List ρ) (s : OffsetSource ρ) : Prop where
  size : 0 < s.pageSize
  limit : s.maxItems = most
  room : start + s.pageSize * s.fetchesForAll (collection.drop start) < 2 ^ 64
  within : ∀ n ∈ most, delivered.length ≤ n
  progress : s.Flows collection start delivered ∨
    s.state = .exhausted ∧ delivered = most.elim (collection.drop start) (collection.drop start).take

/-- A pull as it should be. -/
def Pull (collection : List ρ) (start : Nat) (most : Option Nat) (delivered : List ρ) (s : OffsetSource ρ)
    (item? : Option ρ) (s' : OffsetSource ρ) : Prop :=
  Reads collection start most (delivered ++ item?.toList) s' ∧
    (s'.unread collection).length + item?.toList.length ≤ (s.unread collection).length ∧
    (item? = none → delivered = most.elim (collection.drop start) (collection.drop start).take)

theorem reads_new (collection : List ρ) (label : String) (size : Nat) (start : UInt64) (most : Option Nat)
    (first last : Option String) (hroom : start.toNat + max size 1 *
      (new label size start most first last : OffsetSource ρ).fetchesForAll (collection.drop start.toNat) < 2 ^ 64) :
    Reads collection start.toNat most [] (new label size start most first last) where
  size := Nat.lt_of_lt_of_le Nat.zero_lt_one (Nat.le_max_right _ _)
  limit := rfl
  room := hroom
  within n _ := Nat.zero_le n
  progress := by
    refine .inl ⟨rfl, rfl, rfl, rfl, ?_⟩
    rw [new]
    dsimp only [List.length_nil]
    omega

section Fetch

variable (h : s.Flows collection start delivered) (hempty : s.buffer = [])
include h hempty

/-- Before a fetch: what is delivered, and what the offset leaves. -/
private theorem Flows.length : delivered.length + (collection.length - s.offset.toNat) = collection.length - start := by
  have hlength := congrArg List.length h.flow
  rw [unread, hempty, List.nil_append, List.length_append, List.length_drop, List.length_drop] at hlength
  exact hlength

/-- As long as something is left, all the pages were full. -/
private theorem Flows.full (hleft : delivered.length < collection.length - start) :
    s.pageSize * s.fetches = delivered.length := by
  have hlength := h.length hempty
  rw [h.place] at hlength
  omega

/-- A fetch that is due is one of those that it takes to deliver all. -/
private theorem Flows.fetches_lt (hsize : 0 < s.pageSize) (hopen : s.isFull = false) :
    s.fetches < s.fetchesForAll (collection.drop start) := by
  have hpages := h.pages
  have hlength := h.length hempty
  rw [hempty, List.length_nil, Nat.add_zero] at hpages
  -- Without a maximum within reach it may be the one for the end.
  have hlast : s.fetches < (collection.length - start) ⌈/⌉ s.pageSize + 1 := by
    by_contra hmore
    have hmul := Nat.mul_le_mul_left s.pageSize (Nat.le_of_not_lt hmore)
    have hall : collection.length - start ≤ s.pageSize * ((collection.length - start) ⌈/⌉ s.pageSize) :=
      le_smul_ceilDiv hsize
    rw [Nat.mul_succ] at hmul
    omega
  rw [fetchesForAll, List.length_drop]
  cases hmax : s.maxItems with
  | none => exact hlast
  | some n =>
    dsimp only
    split
    · have hless : delivered.length < n := by
        rw [isFull, hmax, h.count] at hopen
        exact Nat.lt_of_not_le (of_decide_eq_false hopen)
      have hfull := h.full hempty (by omega)
      by_contra hmore
      have hmul := Nat.mul_le_mul_left s.pageSize (Nat.le_of_not_lt hmore)
      have hall : n ≤ s.pageSize * (n ⌈/⌉ s.pageSize) := le_smul_ceilDiv hsize
      omega
    · exact hlast

end Fetch

section Next

variable (h : Reads collection start most delivered s)
include h

private theorem lt_of_not_full (hcount : s.delivered = delivered.length) (hopen : s.isFull = false) :
    ∀ n ∈ most, delivered.length < n := by
  intro n hn
  rw [isFull, h.limit, Option.mem_def.mp hn] at hopen
  rw [← hcount]
  exact Nat.lt_of_not_le (of_decide_eq_false hopen)

/-- The next page starts after the stride. -/
private theorem Reads.toNat_accept (hflows : s.Flows collection start delivered) (hopen : s.isFull = false)
    (hempty : s.buffer = []) (page : Page ρ) : (s.accept page).offset.toNat = s.offset.toNat + s.pageSize := by
  have hmul := Nat.mul_le_mul_left s.pageSize (hflows.fetches_lt hempty h.size hopen)
  have hroom := h.room
  rw [Nat.mul_succ] at hmul
  have hbound : s.offset.toNat + s.pageSize < 2 ^ 64 := by
    rw [hflows.place]
    omega
  rw [accept, UInt64.toNat_add, UInt64.toNat_ofNat', Nat.add_mod_mod, Nat.mod_eq_of_lt hbound]

/-- One more record goes the way to the end of the collection. -/
private theorem Reads.snoc {s' : OffsetSource ρ} {record : ρ} (hflows : s.Flows collection start delivered)
    (hopen : s.isFull = false) (hsize : s'.pageSize = s.pageSize) (hlimit : s'.maxItems = s.maxItems)
    (hactive : s'.state = .active) (hdelivered : s'.delivered = s.delivered + 1)
    (hplace : s'.offset.toNat = start + s.pageSize * s'.fetches)
    (hpages : s.pageSize * s'.fetches < delivered.length + 1 + s'.buffer.length + s.pageSize)
    (hunread : s.unread collection = record :: s'.unread collection) :
    Pull collection start most delivered s (some record) s' := by
  have hroom : start + s'.pageSize * s'.fetchesForAll (collection.drop start) < 2 ^ 64 := by
    rw [fetchesForAll, hlimit, hsize]
    exact h.room
  refine ⟨⟨hsize ▸ h.size, hlimit.trans h.limit, hroom, fun n hn => ?_, .inl ⟨hactive, ?_, ?_, ?_, ?_⟩⟩, ?_,
    fun hnone => by cases hnone⟩
  · rw [List.length_append]
    exact lt_of_not_full h hflows.count hopen n hn
  · rw [hdelivered, hflows.count, List.length_append]
    rfl
  · rw [← hflows.flow, hunread, List.append_assoc]
    rfl
  · rw [hsize]
    exact hplace
  · rw [hsize, List.length_append]
    exact hpages
  · rw [hunread]
    exact Nat.le_refl _

private theorem next_empty (hserver : fetch.Serves collection s.request) (hflows : s.Flows collection start delivered)
    (hopen : s.isFull = false) (hempty : s.buffer = []) (w : σ) :
    ∃ item? s' w', (next fetch).run (s, w) = some (.ok item?, s', w') ∧
      Pull collection start most delivered s item? s' := by
  have hgoing : s.state.settled? ρ = none := by
    rw [hflows.active]
    rfl
  have hunread : s.unread collection = collection.drop s.offset.toNat := by rw [unread, hempty, List.nil_append]
  obtain ⟨page, w', hfetch, hpart, hlength⟩ := hserver s.offset w
  have hcut : page.records.take s.pageSize = (collection.drop s.offset.toNat).take s.pageSize :=
    Fetch.take_of_serves hpart hlength
  have hstride := h.toNat_accept hflows hopen hempty page
  have hafter : page.records.take s.pageSize ++ collection.drop (s.accept page).offset.toNat = s.unread collection := by
    rw [hstride, hcut, hunread, ← List.drop_drop, List.take_append_drop]
  cases hrecords : page.records.take s.pageSize with
  | nil =>
    have hpop : (s.accept page).pop = (none, { s.accept page with state := .exhausted }) := by
      rw [pop, accept]
      dsimp only
      rw [hrecords]
    -- The page is empty because nothing follows.
    have hover : s.unread collection = [] := by
      rw [hrecords] at hcut
      rw [hunread]
      exact (List.take_eq_nil_iff.mp hcut.symm).resolve_left h.size.ne'
    have hall : delivered = most.elim (collection.drop start) (collection.drop start).take := by
      have hflow := hflows.flow
      rw [hover, List.append_nil] at hflow
      cases hmost : most with
      | none => exact hflow
      | some n =>
        have hless := lt_of_not_full h hflows.count hopen n hmost
        rw [← hflow]
        exact (List.take_of_length_le hless.le).symm
    refine ⟨none, _, w', next_of_page hgoing hopen hempty hfetch hpop, ⟨h.size, h.limit, h.room, ?_, .inr ⟨rfl, ?_⟩⟩, ?_,
      fun _ => hall⟩
    · rw [Option.toList_none, List.append_nil]
      exact h.within
    · rw [Option.toList_none, List.append_nil]
      exact hall
    · have hbuffer : ({ s.accept page with state := .exhausted } : OffsetSource ρ).unread collection = [] := by
        rw [← hover, ← hafter]
        rfl
      rw [hbuffer]
      exact Nat.zero_le _
  | cons record buffer =>
    have hsome : page.records.isEmpty = false := by
      cases hpage : page.records with
      | nil =>
        rw [hpage, List.take_nil] at hrecords
        cases hrecords
      | cons record records => rfl
    have hpop : (s.accept page).pop =
        (some record, { s.accept page with buffer, delivered := (s.accept page).delivered + 1 }) := by
      rw [pop, accept]
      dsimp only
      rw [hrecords]
    have hleft : delivered.length < collection.length - start := by
      have hnext := congrArg List.length hafter
      rw [hrecords, hunread, List.length_append, List.length_drop, List.length_drop, List.length_cons] at hnext
      have hlength := hflows.length hempty
      omega
    have hfull := hflows.full hempty hleft
    have hfetches : (s.accept page).fetches = s.fetches + 1 := rfl
    refine ⟨some record, _, w', next_of_page hgoing hopen hempty hfetch hpop,
      h.snoc hflows hopen rfl rfl ?_ rfl ?_ ?_ ?_⟩
    · rw [accept, hsome]
      exact hflows.active
    · dsimp only
      rw [hstride, hflows.place, hfetches, Nat.mul_succ, Nat.add_assoc]
    · dsimp only
      rw [hfetches, Nat.mul_succ, hfull]
      omega
    · rw [← hafter, hrecords]
      rfl

/-- A pull answers the next record as long as one is wanted, and then nothing. -/
theorem next_reads (hserver : fetch.Serves collection s.request) (w : σ) :
    ∃ item? s' w', (next fetch).run (s, w) = some (.ok item?, s', w') ∧
      Pull collection start most delivered s item? s' := by
  obtain hflows | ⟨hended, hall⟩ := h.progress
  · have hgoing : s.state.settled? ρ = none := by
      rw [hflows.active]
      rfl
    cases hfull : s.isFull with
    | true =>
      obtain ⟨n, hmost, hreached⟩ := (Option.any_eq_true _ _).mp hfull
      have hlength : delivered.length = n := by
        rw [h.limit] at hmost
        exact Nat.le_antisymm (h.within n hmost) (hflows.count ▸ of_decide_eq_true hreached)
      have hall : delivered = most.elim (collection.drop start) (collection.drop start).take := by
        rw [← h.limit, hmost, ← hflows.flow]
        exact (List.take_left' hlength).symm
      refine ⟨none, _, w, next_of_full hgoing hfull w, ⟨h.size, h.limit, h.room, ?_, .inr ⟨rfl, ?_⟩⟩, ?_, fun _ => hall⟩
      · rw [Option.toList_none, List.append_nil]
        exact h.within
      · rw [Option.toList_none, List.append_nil]
        exact hall
      · simp [unread]
    | false =>
      cases hbuffer : s.buffer with
      | nil => exact next_empty h hserver hflows hfull hbuffer w
      | cons record buffer =>
        have hpages := hflows.pages
        rw [hbuffer, List.length_cons] at hpages
        refine ⟨some record, _, w, next_of_buffer hgoing hfull hbuffer,
          h.snoc hflows hfull rfl rfl hflows.active rfl hflows.place ?_ ?_⟩
        · dsimp only
          omega
        · rw [unread, hbuffer]
          rfl
  · refine ⟨none, s, w, next_of_settled (by rw [hended]; rfl) w, ?_, Nat.le_refl _, fun _ => hall⟩
    rw [Option.toList_none, List.append_nil]
    exact h

end Next

end BatchExport.OffsetSource
