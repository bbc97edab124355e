import BatchExport.Config.Problem
import BatchExport.Export.Job
import BatchExport.Logging
import BatchExport.Remote.Publisher
import BatchExport.Remote.Retry
import Mathlib.Data.List.Forall2

/-! What a valid configuration is good for. Main statement: every part of the worker that is made from a valid
configuration can be made, and it takes the figures as they stand. -/
namespace BatchExport

theorem firstProblem_eq_none_iff {π : Type} {checks : List (Bool × π)} :
    firstProblem checks = none ↔ ∀ check ∈ checks, check.1 = false := by
  rw [firstProblem, Option.map_eq_none_iff, List.find?_eq_none]
  simp only [Bool.not_eq_true]

/-- A web address is not blank, since it begins with a letter. -/
theorem isBlank_of_hasWebScheme {url : String} (h : hasWebScheme url = true) : Text.isBlank url = false := by
  obtain ⟨rest, hrest⟩ : ∃ rest, 'h' :: rest = url.toList := by
    rw [hasWebScheme, Text.startsWith, Text.startsWith, Bool.or_eq_true, List.isPrefixOf_iff_prefix,
      List.isPrefixOf_iff_prefix] at h
    obtain ⟨rest, hrest⟩ | ⟨rest, hrest⟩ := h
    · exact ⟨_, hrest⟩
    · exact ⟨_, hrest⟩
  rw [Text.isBlank, ← hrest, List.all_cons]
  rfl

/-- A valid configuration is one whose sections have no problem. -/
theorem Config.isValid_iff {c : Config} : c.IsValid ↔ c.application.problem? = none ∧ c.remote.problem? = none ∧
    c.cache.problem? = none ∧ c.publisher.problem? = none ∧ c.notifier.problem? = none ∧
    (∀ entry ∈ c.sources, entry.2.problem? = none) ∧ c.logging.problem? = none := by
  simp only [IsValid, problem?, Option.orElse_eq_orElse, Option.orElse_eq_or, Option.or_eq_none_iff,
    List.findSome?_eq_none_iff, Option.map_eq_none_iff]

/-- The known levels are in small letters. -/
theorem Logging.level?_of_mem {level : String} (h : level ∈ logLevels) : Logging.level? level = some level := by
  simp only [logLevels, List.mem_cons, List.not_mem_nil, or_false] at h
  obtain rfl | rfl | rfl | rfl | rfl := h <;> rfl

section Sections

theorem ApplicationSettings.level_of_problem? {a : ApplicationSettings} (h : a.problem? = none) :
    a.logLevel ∈ logLevels := by
  have hlevel := firstProblem_eq_none_iff.mp h (!logLevels.contains a.logLevel, .logLevel a.logLevel) (by simp)
  simpa using hlevel

theorem RemoteSettings.attempts_of_problem? {r : RemoteSettings} (h : r.problem? = none) : 1 ≤ r.retry.attempts := by
  have hattempts := firstProblem_eq_none_iff.mp h (r.retry.attempts == 0, .noAttempts) (by simp)
  exact Nat.one_le_iff_ne_zero.mpr (by simpa using hattempts)

/-- Every name of a capacity is that of a kind. -/
theorem CacheSettings.isSome_parse?_of_problem? {s : CacheSettings} (h : s.problem? = none) {entry : String × Nat}
    (hentry : entry ∈ s.capacities) : (ReferenceKind.parse? entry.1).isSome := by
  have hname := firstProblem_eq_none_iff.mp h ((ReferenceKind.parse? entry.1).isNone, .unknownKind entry.1)
    (List.mem_cons_of_mem _ (List.mem_map_of_mem hentry))
  simpa using hname

/-- No capacity is left out. -/
theorem CacheSettings.kindCapacities_of_problem? {s : CacheSettings} (h : s.problem? = none) :
    List.Forall₂ (fun entry capacity => ReferenceKind.parse? entry.1 = some capacity.1 ∧ capacity.2 = entry.2)
      s.capacities s.kindCapacities := by
  have hknown : ∀ entry ∈ s.capacities, (ReferenceKind.parse? entry.1).isSome :=
    fun entry => s.isSome_parse?_of_problem? h
  rw [kindCapacities]
  generalize s.capacities = entries at hknown
  induction entries with
  | nil => exact .nil
  | cons entry entries ih =>
    obtain ⟨name, n⟩ := entry
    obtain ⟨kind, hkind⟩ := Option.isSome_iff_exists.mp (hknown (name, n) List.mem_cons_self)
    have hkept : (ReferenceKind.parse? name).map (·, n) = some (kind, n) := by
      rw [hkind]
      rfl
    simp only [List.filterMap_cons, hkept]
    exact .cons ⟨hkind, rfl⟩ (ih fun other hother => hknown other (List.mem_cons_of_mem _ hother))

theorem PublisherSettings.endpoint_of_problem? {p : PublisherSettings} (h : p.problem? = none) (hkind : p.kind = .http) :
    ∃ endpoint, p.endpoint = some endpoint ∧ Text.isBlank endpoint = false := by
  have hchecks := firstProblem_eq_none_iff.mp h
  have hscheme := hchecks (p.kind == .http && !hasWebScheme (p.endpoint.getD ""), .endpointScheme) (by simp)
  rw [hkind, beq_self_eq_true, Bool.true_and, Bool.not_eq_false'] at hscheme
  cases hendpoint : p.endpoint with
  | none =>
    rw [hendpoint] at hscheme
    cases hscheme
  | some endpoint =>
    rw [hendpoint] at hscheme
    exact ⟨endpoint, rfl, isBlank_of_hasWebScheme hscheme⟩

end Sections

/-- The source that settings describe, with their own figures. -/
inductive RecordSource.Stands (name : String) (s : SourceSettings) : RecordSource → Prop
  | offset (mode : s.paging = .offset) : Stands name s (.offset {
      label := name, pageSize := s.pageSize, offset := s.startOffset, maxItems := s.maxItems
      rangeStart := s.rangeStart, rangeEnd := s.rangeEnd
      buffer := [], delivered := 0, fetches := 0, state := .active })
  | cursor (first last : String) (mode : s.paging = .cursor) (start : s.rangeStart = some first)
      (stop : s.rangeEnd = some last) : Stands name s (.cursor {
      label := name, pageSize := s.pageSize, start := first, mark := some last
      buffer := [], fetches := 0, state := .active })

theorem SourceSettings.source_of_problem? {s : SourceSettings} (h : s.problem? = none) (name : String) :
    ∃ source, RecordSource.ofSettings name s = .ok source ∧ source.Stands name s := by
  have hchecks := firstProblem_eq_none_iff.mp h
  have hrange := hchecks (s.paging == .cursor && (s.rangeStart.isNone || s.rangeEnd.isNone), .missingRange) (by simp)
  have hsize := hchecks (s.pageSize == 0 || s.pageSize > 10000, .pageSize s.pageSize) (by simp)
  have hclamp : max s.pageSize 1 = s.pageSize := by
    rw [Bool.or_eq_false_iff, beq_eq_false_iff_ne] at hsize
    omega
  cases hmode : s.paging with
  | offset =>
    refine ⟨_, by rw [RecordSource.ofSettings, hmode], ?_⟩
    rw [OffsetSource.new, hclamp]
    exact .offset hmode
  | cursor =>
    rw [hmode, beq_self_eq_true, Bool.true_and, Bool.or_eq_false_iff, Option.isNone_eq_false_iff,
      Option.isNone_eq_false_iff] at hrange
    obtain ⟨first, hfirst⟩ := Option.isSome_iff_exists.mp hrange.1
    obtain ⟨last, hlast⟩ := Option.isSome_iff_exists.mp hrange.2
    refine ⟨_, by rw [RecordSource.ofSettings, hmode, hfirst, hlast], ?_⟩
    rw [CursorSource.new, hclamp]
    exact .cursor first last hmode hfirst hlast

/-- The kind of publisher that it is. -/
def Publisher.kind : Publisher → PublisherKind
  | log => .log
  | topic _ => .http

theorem PublisherSettings.publisher_of_problem? {p : PublisherSettings} (h : p.problem? = none) (remote : RemoteSettings) :
    ∃ publisher, Publisher.ofSettings p remote = .ok publisher ∧ publisher.kind = p.kind := by
  cases hkind : p.kind with
  | log => exact ⟨.log, by rw [Publisher.ofSettings, hkind], rfl⟩
  | http =>
    obtain ⟨endpoint, hendpoint, hblank⟩ := p.endpoint_of_problem? h hkind
    have hkept : p.endpoint.filter (fun e => !Text.isBlank e) = some endpoint := by
      rw [hendpoint, Option.filter_some, if_pos (by rw [hblank]; rfl)]
    exact ⟨.topic _, by rw [Publisher.ofSettings, hkind, TopicPublisher.ofSettings, hkept]; rfl, rfl⟩

/-- Nothing that is made from the configuration refuses it, and no figure of it is replaced by another. -/
structure Config.IsSufficient (c : Config) : Prop where
  /-- Each source can be made, with its own page size. -/
  sources : ∀ name s, (name, s) ∈ c.sources → ∃ source, RecordSource.ofSettings name s = .ok source ∧ source.Stands name s
  /-- The steps of an export have chunks of the size that is asked for. -/
  chunks : ∀ name s, (name, s) ∈ c.sources → ∀ (ω : Type) (job : ExportJob ω), job.source = s →
    ∀ fuel id, (job.step fuel id).size = s.chunkSize
  publisher : ∃ publisher, Publisher.ofSettings c.publisher c.remote = .ok publisher ∧ publisher.kind = c.publisher.kind
  /-- There are as many attempts at a request as are asked for. -/
  attempts : 1 ≤ c.remote.retry.attempts ∧ ∀ (σ α : Type) (pause : Nat → σ → σ) (operation : Effect σ α),
    Retry.run c.remote.retry pause operation = Retry.attempts c.remote.retry pause operation 1 (c.remote.retry.attempts - 1)
  /-- Each capacity is kept, in the order of the names. -/
  capacities : List.Forall₂ (fun entry capacity => ReferenceKind.parse? entry.1 = some capacity.1 ∧ capacity.2 = entry.2)
    c.cache.capacities c.cache.kindCapacities
  level : Logging.level? c.application.logLevel = some c.application.logLevel

theorem Config.IsValid.isSufficient {c : Config} (h : c.IsValid) : c.IsSufficient := by
  obtain ⟨happlication, hremote, hcache, hpublisher, -, hsources, -⟩ := Config.isValid_iff.mp h
  have hattempts := c.remote.attempts_of_problem? hremote
  exact {
    sources := fun name s hs => s.source_of_problem? (hsources (name, s) hs) name
    chunks := fun name s hs ω job hjob fuel id => by
      have hchunk := firstProblem_eq_none_iff.mp (hsources (name, s) hs) (s.chunkSize == 0, .zeroChunkSize) (by simp)
      rw [beq_eq_false_iff_ne] at hchunk
      subst hjob
      exact Nat.max_eq_left (Nat.one_le_iff_ne_zero.mpr hchunk)
    publisher := c.publisher.publisher_of_problem? hpublisher c.remote
    attempts := ⟨hattempts, fun σ α pause operation => by rw [Retry.run, Nat.max_eq_left hattempts]⟩
    capacities := c.cache.kindCapacities_of_problem? hcache
    level := Logging.level?_of_mem (c.application.level_of_problem? happlication) }

/-- A configuration of both paging modes, with a publisher on the web and capacities by both kinds of names. -/
def Config.sample : Config where
  application := { workDir := "/tmp", logLevel := "warn" }
  cache := { capacities := [("SERVICEPOINTS", 5), ("service-point", 7)] }
  publisher := { kind := .http, endpoint := some "https://" }
  sources := [
    ("items", { path := "/items", paging := .cursor, pageSize := 10000, rangeStart := some "", rangeEnd := some "" }),
    ("users", { path := "/users", pageSize := 1, chunkSize := 1 })]

theorem Config.sample_isSufficient : Config.sample.IsValid ∧ Config.sample.IsSufficient :=
  ⟨by decide, Config.IsValid.isSufficient (by decide)⟩

end BatchExport
