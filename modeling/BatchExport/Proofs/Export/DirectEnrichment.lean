import BatchExport.Enrichment
import BatchExport.Proofs.Json.Members

/-! Enrichment without a cache: each lookup goes straight to the service. Main statement: what a record comes to, by the
rules that fire on it. -/
namespace BatchExport

/-- A question about an id. -/
abbrev ReferenceCall := ReferenceKind × String

namespace Enrichment

variable {byId : ReferenceKind → String → Except Failure Json} {rules : List EnrichRule} {idField id : String}

/-- A rule that fires, and the reference that it finds. -/
structure Firing where
  rule : EnrichRule
  reference : String

namespace Firing

def call (f : Firing) : ReferenceCall := (f.rule.kind, f.reference)

def answer (byId : ReferenceKind → String → Except Failure Json) (f : Firing) : Except Failure Json :=
  byId f.rule.kind f.reference

/-- The rule has got an entity. -/
def IsAnswered (byId : ReferenceKind → String → Except Failure Json) (f : Firing) : Prop :=
  ∃ entity, f.answer byId = .ok entity

end Firing

/-- The rules that fire one after the other on a record that holds so much under its keys, up to the first one whose
lookup fails. The targets of those before are among what a rule sees. -/
def firings (byId : ReferenceKind → String → Except Failure Json) :
    List EnrichRule → (String → Option Json) → List Firing
  | [], _ => []
  | rule :: rules, holds =>
    match holds rule.field with
    | some (.string reference) =>
      if reference = "" then firings byId rules holds
      else match byId rule.kind reference with
        | .error _ => [⟨rule, reference⟩]
        | .ok entity => ⟨rule, reference⟩ :: firings byId rules fun key =>
            if key = rule.target then some ((entity.get? rule.kind.queryField).getD .null) else holds key
    | _ => firings byId rules holds

/-- One rule, with a lookup that goes straight to the service. -/
def applyDirectly (byId : ReferenceKind → String → Except Failure Json) (id : String)
    (members : List (String × Json)) (rule : EnrichRule) : Except Failure (List (String × Json)) :=
  match members.lookup rule.field with
  | some (.string reference) =>
    if reference = "" then .ok members
    else match byId rule.kind reference with
      | .ok entity => .ok (Json.insertMember rule.target ((entity.get? rule.kind.queryField).getD .null) members)
      | .error (.notFound kind key) => .error (.partialFailure id (Failure.notFound kind key).message)
      | .error f => .error f
  | _ => .ok members

/-- A record alone, without a cache. -/
def direct (byId : ReferenceKind → String → Except Failure Json) (rules : List EnrichRule) (idField : String)
    (record : Json) : Except Failure Json :=
  match rules, record with
  | [], _ => .ok record
  | rules, .object members => (rules.foldlM (applyDirectly byId (recordId record idField)) members).map .object
  | _, _ => .error (.partialFailure (recordId record idField) "record is not a JSON object")

/-- What becomes of members when these rules fire: each target gets the name of its entity, or the last of the rules
finds nothing, or its lookup fails otherwise. -/
inductive ComesTo (byId : ReferenceKind → String → Except Failure Json) (id : String)
    (members : List (String × Json)) (fired : List Firing) : Except Failure (List (String × Json)) → Prop
  | named (out : List (String × Json)) (answered : ∀ f ∈ fired, f.IsAnswered byId)
      (ordered : Json.InKeyOrder members → Json.InKeyOrder out)
      (others : ∀ key, (∀ f ∈ fired, f.rule.target ≠ key) → out.lookup key = members.lookup key)
      (targets : ∀ earlier f later entity, fired = earlier ++ f :: later →
        (∀ g ∈ later, g.rule.target ≠ f.rule.target) → f.answer byId = .ok entity →
        out.lookup f.rule.target = some ((entity.get? f.rule.kind.queryField).getD .null)) :
      ComesTo byId id members fired (.ok out)
  | unknown (earlier : List Firing) (f : Firing) (kind key : String) (last : fired = earlier ++ [f])
      (answered : ∀ g ∈ earlier, g.IsAnswered byId) (refused : f.answer byId = .error (.notFound kind key)) :
      ComesTo byId id members fired (.error (.partialFailure id (Failure.notFound kind key).message))
  | failed (earlier : List Firing) (f : Firing) (failure : Failure) (last : fired = earlier ++ [f])
      (answered : ∀ g ∈ earlier, g.IsAnswered byId) (refused : f.answer byId = .error failure)
      (other : failure.isNotFound = false) :
      ComesTo byId id members fired (.error failure)

/-- Calls for rules that fire, in their order. Only an entity may be known without a call. -/
inductive Asks (byId : ReferenceKind → String → Except Failure Json) : List Firing → List ReferenceCall → Prop
  | done : Asks byId [] []
  | calls {fired calls} (f : Firing) (rest : Asks byId fired calls) : Asks byId (f :: fired) (f.call :: calls)
  | knows {fired calls} (f : Firing) (known : f.IsAnswered byId) (rest : Asks byId fired calls) :
      Asks byId (f :: fired) calls

section Rules

variable {members : List (String × Json)} {rule : EnrichRule} {reference : String} {entity : Json}

theorem reference?_eq_some : reference? rule members = some reference ↔
    members.lookup rule.field = some (.string reference) ∧ reference ≠ "" := by
  rw [reference?]
  split
  · rename_i text hlookup
    rw [hlookup]
    by_cases htext : text = ""
    · subst htext
      simp
    · rw [if_neg (by simpa using htext)]
      constructor
      · rintro ⟨⟩
        exact ⟨rfl, htext⟩
      · rintro ⟨⟨⟩, -⟩
        rfl
  · rename_i hlookup
    constructor
    · rintro ⟨⟩
    · rintro ⟨h, -⟩
      exact absurd h (hlookup reference)

theorem applyDirectly_of_idle (h : reference? rule members = none) :
    applyDirectly byId id members rule = .ok members := by
  rw [applyDirectly]
  split
  · rename_i text hlookup
    split
    · rfl
    · rename_i htext
      cases h.symm.trans (reference?_eq_some.mpr ⟨hlookup, htext⟩)
  · rfl

theorem firings_of_idle (h : reference? rule members = none) :
    firings byId (rule :: rules) (members.lookup ·) = firings byId rules (members.lookup ·) := by
  rw [firings]
  split
  · rename_i text hlookup
    split
    · rfl
    · rename_i htext
      cases h.symm.trans (reference?_eq_some.mpr ⟨hlookup, htext⟩)
  · rfl

/-- No rule fires on what is not an object. -/
theorem firings_of_none (rules : List EnrichRule) : firings byId rules (fun _ => none) = [] := by
  induction rules with
  | nil => rfl
  | cons rule rules ih => exact ih

theorem applyDirectly_of_fires (h : reference? rule members = some reference)
    (answer : byId rule.kind reference = .ok entity) :
    applyDirectly byId id members rule = .ok (Json.insertMember rule.target (entityName rule.kind entity) members) := by
  obtain ⟨hlookup, htext⟩ := reference?_eq_some.mp h
  rw [applyDirectly, hlookup]
  dsimp only
  rw [if_neg htext, answer]
  rfl

theorem applyDirectly_of_refused {f : Failure} (h : reference? rule members = some reference)
    (answer : byId rule.kind reference = .error f) : applyDirectly byId id members rule = .error (blame id f) := by
  obtain ⟨hlookup, htext⟩ := reference?_eq_some.mp h
  rw [applyDirectly, hlookup]
  dsimp only
  rw [if_neg htext, answer]
  cases f <;> rfl

theorem firings_of_fires (h : reference? rule members = some reference)
    (answer : byId rule.kind reference = .ok entity) :
    firings byId (rule :: rules) (members.lookup ·) =
      ⟨rule, reference⟩ :: firings byId rules
        ((Json.insertMember rule.target (entityName rule.kind entity) members).lookup ·) := by
  obtain ⟨hlookup, htext⟩ := reference?_eq_some.mp h
  simp only [Json.lookup_insertMember]
  rw [firings, hlookup]
  dsimp only
  rw [if_neg htext, answer]
  rfl

theorem firings_of_refused {f : Failure} (h : reference? rule members = some reference)
    (answer : byId rule.kind reference = .error f) :
    firings byId (rule :: rules) (members.lookup ·) = [⟨rule, reference⟩] := by
  obtain ⟨hlookup, htext⟩ := reference?_eq_some.mp h
  rw [firings, hlookup]
  dsimp only
  rw [if_neg htext, answer]

/-- A rule that gets its entity comes before the others. -/
theorem ComesTo.after {f : Firing} {fired : List Firing} {r : Except Failure (List (String × Json))}
    (answer : f.answer byId = .ok entity)
    (h : ComesTo byId id (Json.insertMember f.rule.target (entityName f.rule.kind entity) members) fired r) :
    ComesTo byId id members (f :: fired) r := by
  have hcons {earlier : List Firing} (answered : ∀ g ∈ earlier, g.IsAnswered byId) :
      ∀ g ∈ f :: earlier, g.IsAnswered byId := by
    intro g hg
    rcases List.mem_cons.mp hg with rfl | hg
    · exact ⟨entity, answer⟩
    · exact answered g hg
  cases h with
  | named out answered ordered others targets =>
    refine .named out (hcons answered) (fun hordered => ordered (hordered.insertMember _ _)) (fun key hkey => ?_) ?_
    · rw [others key fun g hg => hkey g (List.mem_cons_of_mem _ hg), Json.lookup_insertMember,
        if_neg fun h => hkey f List.mem_cons_self h.symm]
    · intro earlier g later entity' hsplit hlater hanswer
      rcases List.cons_eq_append_iff.mp hsplit with ⟨rfl, hhead⟩ | ⟨earlier', rfl, hrest⟩
      · obtain ⟨rfl, rfl⟩ := List.cons.inj hhead
        cases answer.symm.trans hanswer
        rw [others g.rule.target hlater, Json.lookup_insertMember, if_pos rfl]
        rfl
      · exact targets earlier' g later entity' hrest hlater hanswer
  | unknown earlier g kind key last answered refused =>
    exact .unknown (f :: earlier) g kind key (by rw [last]; rfl) (hcons answered) refused
  | failed earlier g failure last answered refused other =>
    exact .failed (f :: earlier) g failure (by rw [last]; rfl) (hcons answered) refused other

/-- The fold over the rules, told by the rules that fire. -/
theorem comesTo_foldlM (rules : List EnrichRule) (members : List (String × Json)) :
    ComesTo byId id members (firings byId rules (members.lookup ·))
      (rules.foldlM (applyDirectly byId id) members) := by
  induction rules generalizing members with
  | nil =>
    refine .named members (fun _ h => nomatch h) (fun h => h) (fun _ _ => rfl) fun earlier f later _ h => ?_
    simp [firings] at h
  | cons rule rules ih =>
    rw [List.foldlM_cons]
    cases hreference : reference? rule members with
    | none =>
      rw [firings_of_idle hreference, applyDirectly_of_idle hreference]
      exact ih members
    | some reference =>
      cases hanswer : byId rule.kind reference with
      | ok entity =>
        rw [firings_of_fires hreference hanswer, applyDirectly_of_fires hreference hanswer]
        exact .after hanswer (ih _)
      | error f =>
        rw [firings_of_refused hreference hanswer, applyDirectly_of_refused hreference hanswer]
        cases f with
        | notFound kind key => exact .unknown [] _ kind key rfl (fun _ h => nomatch h) hanswer
        | _ => exact .failed [] _ _ rfl (fun _ h => nomatch h) hanswer rfl

end Rules

/-- The id that a failure names is the one before any rule has run. -/
theorem direct_object (rules : List EnrichRule) (idField : String) (members : List (String × Json)) :
    direct byId rules idField (.object members) =
      (rules.foldlM (applyDirectly byId (recordId (.object members) idField)) members).map .object := by
  cases rules <;> rfl

theorem direct_of_not_object (hrules : rules ≠ []) {record : Json} (h : record.members? = none) :
    direct byId rules idField record =
      .error (.partialFailure (recordId record idField) "record is not a JSON object") := by
  cases rules with
  | nil => exact absurd rfl hrules
  | cons rule rules =>
    cases record with
    | object members => cases h
    | _ => rfl

end Enrichment
end BatchExport
