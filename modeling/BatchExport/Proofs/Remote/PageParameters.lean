import BatchExport.Proofs.Paging.PageRequests
import BatchExport.Proofs.Remote.Requests
import BatchExport.Remote.Collection

/-! The parameters of page requests. Main statement: the extra parameters of a source come before its own, so page, range
and query are stated once and rightly exactly if no extra parameter has the name of one of these. -/
namespace BatchExport

open Retry (history)

/-- The values under a name, in their order. -/
def valuesOf (name : String) (params : List (String × String)) : List String :=
  (params.filter (·.1 == name)).map (·.2)

section Values

variable {name k : String} {params : List (String × String)}

theorem valuesOf_append (name : String) (params more : List (String × String)) :
    valuesOf name (params ++ more) = valuesOf name params ++ valuesOf name more := by
  rw [valuesOf, List.filter_append, List.map_append, valuesOf, valuesOf]

theorem valuesOf_cons (name k v : String) (params : List (String × String)) :
    valuesOf name ((k, v) :: params) = if k = name then v :: valuesOf name params else valuesOf name params := by
  rw [valuesOf, List.filter_cons]
  by_cases hk : k = name
  · rw [if_pos (beq_iff_eq.mpr hk), if_pos hk, List.map_cons, valuesOf]
  · rw [if_neg (mt beq_iff_eq.mp hk), if_neg hk, valuesOf]

theorem valuesOf_option (name k : String) (v? : Option String) :
    valuesOf name (v?.toList.map ((k, ·))) = if k = name then v?.toList else [] := by
  cases v? with
  | none => exact (ite_self _).symm
  | some v => exact valuesOf_cons name k v []

theorem valuesOf_eq_nil_iff : valuesOf name params = [] ↔ name ∉ Entries.keys params := by
  simp only [valuesOf, Entries.keys, List.map_eq_nil_iff, List.filter_eq_nil_iff, beq_iff_eq, List.mem_map, not_exists,
    not_and]

/-- In a map, a name has one value at most. -/
theorem valuesOf_of_nodup (h : (Entries.keys params).Nodup) : valuesOf name params = (Entries.get? params name).toList := by
  induction params with
  | nil => rfl
  | cons entry params ih =>
    obtain ⟨k, v⟩ := entry
    obtain ⟨hfirst, hrest⟩ := List.nodup_cons.mp h
    rw [valuesOf_cons, Entries.get?, List.lookup_cons]
    by_cases hk : k = name
    · subst hk
      rw [if_pos rfl, valuesOf_eq_nil_iff.mpr hfirst, beq_self_eq_true]
      rfl
    · rw [if_neg hk, beq_false_of_ne (Ne.symm hk)]
      exact ih hrest

end Values

/-- The page and its range are stated once and rightly, and a query at most once. -/
structure PageRequest.IsStated (r : PageRequest) (params : List (String × String)) : Prop where
  limit : valuesOf "limit" params = [toString r.limit]
  /-- There is an offset exactly if the page is one at an offset. -/
  offset : valuesOf "offset" params = match r.position with
    | .offset n => [toString n]
    | .cursor _ => []
  fromDate : valuesOf "fromDate" params = r.rangeStart.toList
  toDate : valuesOf "toDate" params = match r.position with
    | .offset _ => r.rangeEnd.toList
    | .cursor marker => [marker]
  query : (valuesOf "query" params).length ≤ 1

namespace RemoteCollection

variable {c : RemoteCollection} {r : PageRequest} {request : HttpRequest} {name : String}

/-- The parameters but for the extra ones. -/
def ownParams (c : RemoteCollection) (r : PageRequest) : List (String × String) := { c with params := [] }.queryParams r

theorem queryParams_eq (c : RemoteCollection) (r : PageRequest) : c.queryParams r = c.params ++ c.ownParams r := by
  simp only [ownParams, queryParams, List.append_assoc, List.nil_append]

theorem valuesOf_query_ownParams (c : RemoteCollection) (r : PageRequest) :
    valuesOf "query" (c.ownParams r) = c.query.toList := by
  rw [ownParams, queryParams]
  cases r.position <;> simp [valuesOf_append, valuesOf_cons, valuesOf_option]

/-- What the source adds itself is as it should be. -/
theorem isStated_ownParams (c : RemoteCollection) (r : PageRequest) : r.IsStated (c.ownParams r) := by
  have hquery := c.valuesOf_query_ownParams r
  obtain ⟨limit, position, rangeStart, rangeEnd⟩ := r
  refine ⟨?limit, ?offset, ?fromDate, ?toDate, hquery ▸ Option.length_toList_le⟩
  all_goals
    rw [ownParams, queryParams]
    cases position <;> simp [valuesOf_append, valuesOf_cons, valuesOf_option]

/-- A value is the own one exactly if the name is not that of an extra parameter. -/
theorem valuesOf_queryParams_iff {values : List String} (hown : valuesOf name (c.ownParams r) = values) :
    valuesOf name (c.queryParams r) = values ↔ name ∉ Entries.keys c.params := by
  rw [queryParams_eq, valuesOf_append, hown, List.append_left_eq_self, valuesOf_eq_nil_iff]

/-- A query is stated at most once exactly if there is one at most. -/
theorem query_queryParams_iff (hmap : (Entries.keys c.params).Nodup) :
    (valuesOf "query" (c.queryParams r)).length ≤ 1 ↔ (c.query.isSome → "query" ∉ Entries.keys c.params) := by
  rw [queryParams_eq, valuesOf_append, valuesOf_query_ownParams, List.length_append]
  cases c.query with
  | none =>
    rw [valuesOf_of_nodup hmap]
    simp [Option.length_toList_le]
  | some query =>
    rw [← valuesOf_eq_nil_iff, ← List.length_eq_zero_iff]
    simp

/-- No extra parameter has the name of one that is added to it. -/
structure IsApart (c : RemoteCollection) : Prop where
  limit : "limit" ∉ Entries.keys c.params
  offset : "offset" ∉ Entries.keys c.params
  fromDate : "fromDate" ∉ Entries.keys c.params
  toDate : "toDate" ∉ Entries.keys c.params
  query : c.query.isSome → "query" ∉ Entries.keys c.params

theorem isStated_iff (hmap : (Entries.keys c.params).Nodup) (r : PageRequest) :
    r.IsStated (c.queryParams r) ↔ c.IsApart := by
  have hown := c.isStated_ownParams r
  constructor
  · intro h
    exact {
      limit := (valuesOf_queryParams_iff hown.limit).mp h.limit
      offset := (valuesOf_queryParams_iff hown.offset).mp h.offset
      fromDate := (valuesOf_queryParams_iff hown.fromDate).mp h.fromDate
      toDate := (valuesOf_queryParams_iff hown.toDate).mp h.toDate
      query := (query_queryParams_iff hmap).mp h.query }
  · intro h
    exact {
      limit := (valuesOf_queryParams_iff hown.limit).mpr h.limit
      offset := (valuesOf_queryParams_iff hown.offset).mpr h.offset
      fromDate := (valuesOf_queryParams_iff hown.fromDate).mpr h.fromDate
      toDate := (valuesOf_queryParams_iff hown.toDate).mpr h.toDate
      query := (query_queryParams_iff hmap).mpr h.query }

/-- If the service replies suitably, a fetch of this page makes this request. -/
def Requests (c : RemoteCollection) (r : PageRequest) (request : HttpRequest) : Prop :=
  ∃ replies answer log, (c.fetch (.scripted replies) r).run [] = some (answer, log) ∧ .tried request ∈ log

/-- A fetch makes one request, some times. -/
theorem fetch_scripted (c : RemoteCollection) (r : PageRequest) (replies : Nat → HttpReply) :
    ∃ k answer, 1 ≤ k ∧ (c.fetch (.scripted replies) r).run [] =
      some (answer, history c.client.retry (c.client.request c.path (c.queryParams r)) k) := by
  apply c.client.getJson_then_scripted
  intro found log
  cases found with
  | none => exact ⟨_, rfl⟩
  | some body =>
    dsimp only
    cases c.page body with
    | error fault => exact ⟨_, rfl⟩
    | ok page => exact ⟨_, rfl⟩

theorem requests_iff : c.Requests r request ↔ request = c.client.request c.path (c.queryParams r) :=
  tried_iff_of_history (c.fetch_scripted r)

/-- A source with valid settings makes requests for its pages and its range only. Each is sent with all extra parameters,
followed by its own ones, which state page, range and query rightly. All parameters together do so exactly if no extra
one has the name of another. -/
theorem parameters_are_stated_iff {s : SourceSettings} (hvalid : s.problem? = none) (hmap : (Entries.keys s.params).Nodup)
    (client : RemoteClient) (name : String) :
    ∃ source, RecordSource.ofSettings name s = .ok source ∧ ∀ r, source.Makes r →
      r.IsFor s ∧
      (∀ request, (ofSource client s).Requests r request ↔
        request = client.request s.path ((ofSource client s).queryParams r)) ∧
      (∀ extra ∈ s.params, extra ∈ (ofSource client s).queryParams r) ∧
      (∀ parameter, valuesOf parameter ((ofSource client s).queryParams r) =
        (Entries.get? s.params parameter).toList ++ valuesOf parameter ((ofSource client s).ownParams r)) ∧
      r.IsStated ((ofSource client s).ownParams r) ∧
      (r.IsStated ((ofSource client s).queryParams r) ↔ (ofSource client s).IsApart) := by
  obtain ⟨source, hsource, hstands⟩ := s.source_of_problem? hvalid name
  refine ⟨source, hsource, fun r hmakes => ⟨hmakes.isFor hstands.obeys, fun request => requests_iff, ?extras, ?values,
    isStated_ownParams _ r, isStated_iff hmap r⟩⟩
  case extras =>
    intro extra hextra
    rw [queryParams_eq]
    exact List.mem_append_left _ hextra
  case values =>
    intro parameter
    rw [queryParams_eq, valuesOf_append, ofSource, valuesOf_of_nodup hmap]

namespace Headings

def client : RemoteClient := .ofSettings {}

/-- A source that is read by markers, with an extra parameter. -/
def settings (extra : String) : SourceSettings where
  path := "links/stats/authority"
  paging := .cursor
  pageSize := 2
  rangeStart := some "2024-01-01"
  rangeEnd := some "2024-02-01"
  query := some "heading==\"a\""
  params := [(extra, "5")]

def source : RecordSource := .cursor (.new "headings" 2 "2024-01-01" "2024-02-01")

/-- What it asks for first. -/
def first : PageRequest where
  limit := 2
  position := .cursor "2024-02-01"
  rangeStart := some "2024-01-01"
  rangeEnd := some "2024-02-01"

private theorem ofSettings_eq (extra : String) : RecordSource.ofSettings "headings" (settings extra) = .ok source := rfl

/-- The first page is the last. -/
private def fetch : Fetch Unit Json := fun _ => pure ⟨[], none⟩

private theorem makes_first : source.Makes first := by
  have hrun : ∃ source', (RecordSource.next 1 fetch.logged).run (source, [], ()) =
      some (.ok none, source', [⟨first, .ok ⟨[], none⟩, (), ()⟩], ()) := ⟨_, rfl⟩
  obtain ⟨source', hrun⟩ := hrun
  exact ⟨Unit, source', _, .pull .untouched hrun, _, List.mem_singleton_self _, rfl⟩

theorem other_names_are_apart : (settings "action").problem? = none ∧ source.Makes first ∧
    first.IsStated ((ofSource client (settings "action")).queryParams first) := by
  obtain ⟨source', hsource, hrequests⟩ := parameters_are_stated_iff (s := settings "action") (by decide) (by decide) client
    "headings"
  obtain rfl := Except.ok.inj ((ofSettings_eq "action").symm.trans hsource)
  obtain ⟨-, -, -, -, -, hstated⟩ := hrequests first makes_first
  refine ⟨by decide, makes_first, hstated.mpr ?_⟩
  constructor <;> decide

theorem limit_is_stated_twice : (settings "limit").problem? = none ∧
    RecordSource.ofSettings "headings" (settings "limit") = .ok source ∧ source.Makes first ∧
    (ofSource client (settings "limit")).queryParams first = [("limit", "5"), ("limit", "2"),
      ("fromDate", "2024-01-01"), ("toDate", "2024-02-01"), ("query", "heading==\"a\"")] ∧
    ¬ first.IsStated ((ofSource client (settings "limit")).queryParams first) := by
  refine ⟨by decide, ofSettings_eq "limit", makes_first, by decide, fun h => ?_⟩
  have hlimit := h.limit
  revert hlimit
  decide

end Headings

end RemoteCollection
end BatchExport
