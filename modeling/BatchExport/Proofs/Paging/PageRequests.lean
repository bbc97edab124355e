import BatchExport.Export.RecordSource
import BatchExport.Proofs.Config.Validity
import BatchExport.Proofs.Paging.CursorSource
import BatchExport.Proofs.Paging.OffsetSource

/-! The page requests of a configured source. Main statement: however the source is pulled from and whatever it is
answered, all its requests are for the pages and the range of its settings. -/
namespace BatchExport

/-- The requests that belong to settings of a source. -/
inductive PageRequest.IsFor (settings : SourceSettings) : PageRequest → Prop
  /-- A page counted from the start, in the range. Offsets have 64 bits. -/
  | offset (mode : settings.paging = .offset) (page : Nat) : IsFor settings {
      limit := settings.pageSize
      position := .offset ((settings.startOffset.toNat + page * settings.pageSize) % 2 ^ 64)
      rangeStart := settings.rangeStart, rangeEnd := settings.rangeEnd }
  /-- What lies between the start of the range and a marker. -/
  | cursor (mode : settings.paging = .cursor) (marker : String) : IsFor settings {
      limit := settings.pageSize, position := .cursor marker
      rangeStart := settings.rangeStart, rangeEnd := some marker }

variable {σ ρ : Type} {settings : SourceSettings}

/-- All requests belong to the settings. -/
def Fetch.AllFor (settings : SourceSettings) (log : List (FetchRecord σ ρ)) : Prop :=
  ∀ f ∈ log, f.request.IsFor settings

theorem Fetch.AllFor.append {log : List (FetchRecord σ ρ)} {f : FetchRecord σ ρ} (h : AllFor settings log)
    (hf : f.request.IsFor settings) : AllFor settings (log ++ [f]) := by
  intro g hg
  obtain hg | hg := List.mem_append.mp hg
  · exact h g hg
  · obtain rfl := List.mem_singleton.mp hg
    exact hf

namespace OffsetSource

variable {fetch : Fetch σ ρ} {s s' : OffsetSource ρ} {log log' : List (FetchRecord σ ρ)} {w w' : σ}
  {r : Except Failure (Option ρ)}

/-- The source keeps to the stride and the range of the settings, and is at the start of a page. -/
structure Obeys (settings : SourceSettings) (s : OffsetSource ρ) : Prop where
  mode : settings.paging = .offset
  stride : s.pageSize = settings.pageSize
  place : ∃ page, s.offset.toNat = (settings.startOffset.toNat + page * settings.pageSize) % 2 ^ 64
  start : s.rangeStart = settings.rangeStart
  stop : s.rangeEnd = settings.rangeEnd

theorem Obeys.request (h : s.Obeys settings) : s.request.IsFor settings := by
  obtain ⟨page, hplace⟩ := h.place
  rw [OffsetSource.request, h.stride, hplace, h.start, h.stop]
  exact .offset h.mode page

theorem Obeys.accept (h : s.Obeys settings) (page : Page ρ) : (s.accept page).Obeys settings := by
  refine { h with place := ?_ }
  obtain ⟨page, hplace⟩ := h.place
  refine ⟨page + 1, ?_⟩
  change (s.offset + .ofNat s.pageSize).toNat = _
  rw [UInt64.toNat_add, UInt64.toNat_ofNat', Nat.add_mod_mod, hplace, h.stride, Nat.mod_add_mod, Nat.succ_mul,
    Nat.add_assoc]

theorem Obeys.pop (h : s.Obeys settings) : s.pop.2.Obeys settings := by
  rw [OffsetSource.pop]
  split <;> exact { h with }

theorem next_allFor (hrun : (next fetch.logged).run (s, log, w) = some (r, s', log', w')) (hobeys : s.Obeys settings)
    (hlog : Fetch.AllFor settings log) : s'.Obeys settings ∧ Fetch.AllFor settings log' := by
  cases next_turn hrun with
  | settled _ => exact ⟨hobeys, hlog⟩
  | full _ _ => exact ⟨{ hobeys with }, hlog⟩
  | buffered _ _ _ => exact ⟨hobeys.pop, hlog⟩
  | fails _ _ _ hfetched =>
    rw [Fetch.logged_some hfetched]
    exact ⟨{ hobeys with }, hlog.append hobeys.request⟩
  | @accepts page _ _ _ _ hfetched =>
    rw [Fetch.logged_some hfetched]
    exact ⟨(hobeys.accept page).pop, hlog.append hobeys.request⟩

end OffsetSource

namespace CursorSource

variable {fetch : Fetch σ ρ} {s s' : CursorSource ρ} {log log' : List (FetchRecord σ ρ)} {w w' : σ} {fuel : Nat}

/-- The source keeps to the stride of the settings, from the start of their range. -/
structure Obeys (settings : SourceSettings) (s : CursorSource ρ) : Prop where
  mode : settings.paging = .cursor
  stride : s.pageSize = settings.pageSize
  start : settings.rangeStart = some s.start

theorem Obeys.request (h : s.Obeys settings) (marker : String) : (s.request marker).IsFor settings := by
  rw [CursorSource.request, h.stride, ← h.start]
  exact .cursor h.mode marker

theorem Obeys.accept (h : s.Obeys settings) (marker : String) (page : Page ρ) : (s.accept marker page).Obeys settings := by
  rw [CursorSource.accept]
  dsimp only
  split <;> exact { h with }

theorem Obeys.pop (h : s.Obeys settings) : s.pop.2.Obeys settings := by
  rw [CursorSource.pop]
  split <;> exact { h with }

/-- The fetches of one pull, one after the other. -/
private theorem go_allFor {r : Except Failure Unit}
    (hrun : fill.go fetch.logged fuel s (log, w) = some (r, s', log', w')) (hobeys : s.Obeys settings)
    (hlog : Fetch.AllFor settings log) : s'.Obeys settings ∧ Fetch.AllFor settings log' := by
  induction fuel generalizing s log w with
  | zero =>
    by_cases hgoes : s.GoesOn
    · rw [go_zero hgoes] at hrun
      cases hrun
    · obtain ⟨state, hrests, -⟩ := go_rests fetch.logged hgoes 0 (log, w)
      rw [hrests] at hrun
      cases hrun
      exact ⟨{ hobeys with }, hlog⟩
  | succ fuel ih =>
    by_cases hgoes : s.GoesOn
    · obtain ⟨marker, hmark⟩ := Option.ne_none_iff_exists'.mp hgoes.2.2
      rw [go_succ hgoes hmark] at hrun
      obtain ⟨⟨answer, log₁, w₁⟩, hfetch, hrest⟩ := Option.bind_eq_some_iff.mp hrun
      have hlog₁ := hlog.append (f := ⟨s.request marker, answer, w, w₁⟩) (hobeys.request marker)
      rw [← Fetch.logged_some hfetch] at hlog₁
      cases answer with
      | error f =>
        cases hrest
        exact ⟨{ hobeys with }, hlog₁⟩
      | ok page => exact ih hrest (hobeys.accept marker page) hlog₁
    · obtain ⟨state, hrests, -⟩ := go_rests fetch.logged hgoes (fuel + 1) (log, w)
      rw [hrests] at hrun
      cases hrun
      exact ⟨{ hobeys with }, hlog⟩

theorem next_allFor {r : Except Failure (Option ρ)}
    (hrun : (next fuel fetch.logged).run (s, log, w) = some (r, s', log', w')) (hobeys : s.Obeys settings)
    (hlog : Fetch.AllFor settings log) : s'.Obeys settings ∧ Fetch.AllFor settings log' := by
  rw [next, Effect.run_ofRun] at hrun
  dsimp only at hrun
  split at hrun
  · cases hrun
    exact ⟨hobeys, hlog⟩
  · obtain ⟨⟨answer, s₁, log₁, w₁⟩, hfill, heq⟩ := Option.map_eq_some_iff.mp hrun
    obtain ⟨hobeys₁, hlog₁⟩ := go_allFor hfill hobeys hlog
    cases answer with
    | error f =>
      cases heq
      exact ⟨hobeys₁, hlog₁⟩
    | ok _ =>
      cases heq
      exact ⟨hobeys₁.pop, hlog₁⟩

end CursorSource

namespace RecordSource

/-- What a source can have become, with the fetches so far. Between two pulls, the service and the way to it may change. -/
inductive Pulled (σ : Type) (source : RecordSource) : RecordSource → List (FetchRecord σ Json) → Prop
  | untouched : Pulled σ source source []
  | pull {s s' : RecordSource} {log log' : List (FetchRecord σ Json)} {fetch : Fetch σ Json} {fuel : Nat} {w w' : σ}
      {r : Except Failure (Option Json)} (earlier : Pulled σ source s log)
      (run : (next fuel fetch.logged).run (s, log, w) = some (r, s', log', w')) : Pulled σ source s' log'

/-- A request that the source makes in some course of pulls. -/
def Makes (source : RecordSource) (request : PageRequest) : Prop :=
  ∃ (σ : Type) (s : RecordSource) (log : List (FetchRecord σ Json)), Pulled σ source s log ∧ ∃ f ∈ log, f.request = request

/-- A source of either mode that goes by the settings. -/
inductive Obeys (settings : SourceSettings) : RecordSource → Prop
  | offset {s : OffsetSource Json} (obeys : s.Obeys settings) : Obeys settings (.offset s)
  | cursor {s : CursorSource Json} (obeys : s.Obeys settings) : Obeys settings (.cursor s)

variable {source s s' : RecordSource} {log log' : List (FetchRecord σ Json)} {fetch : Fetch σ Json} {fuel : Nat} {w w' : σ}
  {name : String}

theorem next_allFor {r : Except Failure (Option Json)}
    (hrun : (next fuel fetch.logged).run (s, log, w) = some (r, s', log', w')) (hobeys : s.Obeys settings)
    (hlog : Fetch.AllFor settings log) : s'.Obeys settings ∧ Fetch.AllFor settings log' := by
  cases hobeys with
  | offset hobeys =>
    obtain ⟨⟨r₁, s₁, log₁, w₁⟩, hnext, heq⟩ := Option.map_eq_some_iff.mp hrun
    cases heq
    obtain ⟨hobeys₁, hlog₁⟩ := OffsetSource.next_allFor hnext hobeys hlog
    exact ⟨.offset hobeys₁, hlog₁⟩
  | cursor hobeys =>
    obtain ⟨⟨r₁, s₁, log₁, w₁⟩, hnext, heq⟩ := Option.map_eq_some_iff.mp hrun
    cases heq
    obtain ⟨hobeys₁, hlog₁⟩ := CursorSource.next_allFor hnext hobeys hlog
    exact ⟨.cursor hobeys₁, hlog₁⟩

theorem Pulled.allFor (h : Pulled σ source s log) (hobeys : source.Obeys settings) :
    s.Obeys settings ∧ Fetch.AllFor settings log := by
  induction h with
  | untouched => exact ⟨hobeys, fun f hf => absurd hf List.not_mem_nil⟩
  | pull _ hrun ih => exact next_allFor hrun ih.1 ih.2

theorem Makes.isFor {request : PageRequest} (h : source.Makes request) (hobeys : source.Obeys settings) :
    request.IsFor settings := by
  obtain ⟨σ, s, log, hpulled, f, hf, rfl⟩ := h
  exact (hpulled.allFor hobeys).2 f hf

/-- A source starts as its settings say. -/
theorem Stands.obeys (h : source.Stands name settings) : source.Obeys settings := by
  cases h with
  | offset mode => exact .offset { mode, stride := rfl, place := ⟨0, by simp [Nat.mod_eq_of_lt settings.startOffset.toNat_lt]⟩, start := rfl, stop := rfl }
  | cursor first last mode start stop => exact .cursor { mode, stride := rfl, start }

end RecordSource
end BatchExport
