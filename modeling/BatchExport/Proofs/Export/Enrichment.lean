import BatchExport.Proofs.Effect
import BatchExport.Proofs.Export.DirectEnrichment
import BatchExport.Proofs.Reference.Entries

/-! What becomes of a record. Main statement: each rule that finds a reference puts the name of an entity that the cache
held or the service gave, or a failure names the record and its reason, unless the service fails itself. -/
namespace BatchExport

/-- What may have been in a cache about which nothing is known. -/
def ReferenceCache.anything : ReferenceKind → String → Json → Prop := fun _ _ _ => True

namespace ReferenceLookup

variable {σ : Type} (lookup : ReferenceLookup σ) {held : ReferenceKind → String → Json → Prop} {c c' : ReferenceCache}

/-- The service can come to this about an id. -/
def CanAnswer (kind : ReferenceKind) (id : String) (r : Except Failure Json) : Prop :=
  ∃ w w', (lookup.byId kind id).run w = some (r, w')

/-- What a lookup can come to over a cache that held such entities at the start: one of them, or an answer of the
service. -/
inductive Resolves (held : ReferenceKind → String → Json → Prop) (kind : ReferenceKind) (id : String) :
    Except Failure Json → Prop
  | kept (entity : Json) (there : held kind id entity) : Resolves held kind id (.ok entity)
  | answered (r : Except Failure Json) (answer : lookup.CanAnswer kind id r) : Resolves held kind id r

/-- All entities of the cache were there at the start, or come from the service. -/
def Supplies (held : ReferenceKind → String → Json → Prop) (c : ReferenceCache) : Prop :=
  c.HoldsOnly fun kind id entity => lookup.Resolves held kind id (.ok entity)

theorem supplies_start (c : ReferenceCache) : lookup.Supplies c.Holds c := fun _ _ entity => .kept entity

theorem supplies_anything (c : ReferenceCache) : lookup.Supplies ReferenceCache.anything c := fun _ _ entity _ =>
  .kept entity trivial

variable {lookup}

theorem Supplies.trans (h : lookup.Supplies held c) (h' : lookup.Supplies c.Holds c') : lookup.Supplies held c' := by
  intro kind id entity hholds
  cases h' kind id entity hholds with
  | kept _ there => exact h kind id entity there
  | answered _ answer => exact .answered _ answer

end ReferenceLookup

namespace Enrichment

variable {σ : Type} {lookup : ReferenceLookup σ} {held : ReferenceKind → String → Json → Prop} {id idField : String}
  {rules : List EnrichRule} {members : List (String × Json)} {record : Json}

/-- What members come to, rule by rule, if lookups come to what is `known`. -/
inductive Applied (known : ReferenceKind → String → Except Failure Json → Prop) (id : String) :
    List EnrichRule → List (String × Json) → Except Failure (List (String × Json)) → Prop
  | done (members : List (String × Json)) : Applied known id [] members (.ok members)
  /-- No text stands under the field, or an empty one. -/
  | skips {rule rules members r}
      (idle : ∀ reference, members.lookup rule.field = some (.string reference) → reference = "")
      (rest : Applied known id rules members r) : Applied known id (rule :: rules) members r
  /-- The target gets the query field of the entity, and the other members stay. -/
  | names {rule rules members r} (reference : String) (entity : Json) (named : List (String × Json))
      (field : members.lookup rule.field = some (.string reference)) (fires : reference ≠ "")
      (answer : known rule.kind reference (.ok entity))
      (ordered : Json.InKeyOrder members → Json.InKeyOrder named)
      (holds : ∀ key, named.lookup key =
        if key = rule.target then some ((entity.get? rule.kind.queryField).getD .null) else members.lookup key)
      (rest : Applied known id rules named r) : Applied known id (rule :: rules) members r
  | unknown {rule rules members} (reference kind key : String)
      (field : members.lookup rule.field = some (.string reference)) (fires : reference ≠ "")
      (answer : known rule.kind reference (.error (.notFound kind key))) :
      Applied known id (rule :: rules) members (.error (.partialFailure id (Failure.notFound kind key).message))
  | fails {rule rules members} (reference : String) (failure : Failure)
      (field : members.lookup rule.field = some (.string reference)) (fires : reference ≠ "")
      (answer : known rule.kind reference (.error failure)) (other : failure.isNotFound = false) :
      Applied known id (rule :: rules) members (.error failure)

/-- What a record comes to. Its failures name the id that it had before any rule has run. -/
inductive Becomes (known : ReferenceKind → String → Except Failure Json → Prop) (rules : List EnrichRule)
    (idField : String) : Json → Except Failure Json → Prop
  | asIs (none : rules = []) (record : Json) : Becomes known rules idField record (.ok record)
  | object (some : rules ≠ []) (members : List (String × Json)) (r : Except Failure (List (String × Json)))
      (applied : Applied known (recordId (.object members) idField) rules members r) :
      Becomes known rules idField (.object members) (r.map .object)
  | notObject (some : rules ≠ []) (record : Json) (other : record.members? = none) :
      Becomes known rules idField record
        (.error (.partialFailure (recordId record idField) "record is not a JSON object"))

/-- The service answers a question with this failure. -/
def IsFailureOf (lookup : ReferenceLookup σ) (f : Failure) : Prop := ∃ kind key, lookup.CanAnswer kind key (.error f)

theorem IsFailureOf.of_resolves {kind : ReferenceKind} {key : String} {f : Failure}
    (h : lookup.Resolves held kind key (.error f)) : IsFailureOf lookup f := by
  cases h with
  | answered _ answer => exact ⟨kind, key, answer⟩

/-- An entity is found in the cache or comes from the service, and then it is kept; a failure comes from the service. -/
private theorem resolveId_ensures (kind : ReferenceKind) (key : String) {s : ReferenceCache × σ}
    (hs : lookup.Supplies held s.1) : (ReferenceCache.resolveId lookup kind key).Ensures s fun r t =>
      lookup.Resolves held kind key r ∧ lookup.Supplies held t.1 := by
  have hprobe : (ReferenceCache.step (ReferenceCache.probeId kind key)).Ensures s fun r t =>
      r = .ok (s.1.kept? ⟨.ids, kind, key⟩) ∧ lookup.Supplies held t.1 :=
    .ofChange ⟨rfl, ReferenceCache.HoldsOnly.count hs _⟩
  refine .bind hprobe (fun found t ⟨hfound, ht⟩ => ?_) fun f t h => nomatch h.1
  cases found with
  | some entity => exact .pure ⟨hs kind key entity (Except.ok.inj hfound).symm, ht⟩
  | none =>
    have hservice : (ReferenceCache.fromService (lookup.byId kind key)).Ensures t fun r t =>
        lookup.CanAnswer kind key r ∧ lookup.Supplies held t.1 :=
      .onPart fun r w hrun => ⟨⟨t.2, w, hrun⟩, ht⟩
    refine .bind hservice (fun entity t ⟨hanswer, ht⟩ => ?_) fun f t ⟨hanswer, ht⟩ => ⟨.answered _ hanswer, ht⟩
    exact .ofChange ⟨.answered _ hanswer, ReferenceCache.HoldsOnly.storeId ht (.answered _ hanswer)⟩

private theorem applyRules_ensures {s : ReferenceCache × σ} (hs : lookup.Supplies held s.1) :
    (applyRules lookup id rules members).Ensures s fun r t =>
      Applied (lookup.Resolves held) id rules members r ∧ lookup.Supplies held t.1 := by
  induction rules generalizing members s with
  | nil => exact .pure ⟨.done members, hs⟩
  | cons rule rules ih =>
    rw [applyRules]
    split
    · rename_i hnone
      have hidle (reference : String) (hfield : members.lookup rule.field = some (.string reference)) :
          reference = "" := by
        refine Decidable.byContradiction fun hne => ?_
        cases hnone.symm.trans (reference?_eq_some.mpr ⟨hfield, hne⟩)
      exact (ih hs).mono fun r t ⟨happlied, ht⟩ => ⟨.skips hidle happlied, ht⟩
    · rename_i reference hreference
      obtain ⟨hfield, hfires⟩ := reference?_eq_some.mp hreference
      have hresolve : ((ReferenceCache.resolveId lookup rule.kind reference).mapFailure (blame id)).Ensures s
          fun r t => (∃ answer, lookup.Resolves held rule.kind reference answer ∧ r = answer.mapError (blame id)) ∧
            lookup.Supplies held t.1 :=
        .mapFailure ((resolveId_ensures rule.kind reference hs).mono fun r t ⟨hanswer, ht⟩ => ⟨⟨r, hanswer, rfl⟩, ht⟩)
      refine .bind hresolve ?_ ?_
      · rintro entity t ⟨⟨answer, hanswer, heq⟩, ht⟩
        cases answer with
        | error f => cases heq
        | ok entity' =>
          cases heq
          refine (ih ht).mono fun r t ⟨happlied, ht⟩ => ⟨?_, ht⟩
          refine .names reference entity _ hfield hfires hanswer (fun h => h.insertMember _ _) (fun key => ?_) happlied
          exact Json.lookup_insertMember rule.target key (entityName rule.kind entity) members
      · rintro f t ⟨⟨answer, hanswer, heq⟩, ht⟩
        refine ⟨?_, ht⟩
        cases answer with
        | ok entity => cases heq
        | error cause =>
          cases heq
          cases cause with
          | notFound kind key => exact .unknown reference kind key hfield hfires hanswer
          | _ => exact .fails reference _ hfield hfires hanswer rfl

/-- What a record comes to, over a cache whose entities were there at the start or come from the service. -/
theorem process_ensures {s : ReferenceCache × σ} (hs : lookup.Supplies held s.1) :
    (process lookup rules idField record).Ensures s fun r t =>
      Becomes (lookup.Resolves held) rules idField record r ∧ lookup.Supplies held t.1 := by
  rw [process]
  split
  · exact .pure ⟨.asIs (by simpa using ‹rules.isEmpty = true›) record, hs⟩
  · have hsome : rules ≠ [] := by simpa using ‹¬rules.isEmpty = true›
    dsimp only
    split
    · rename_i members
      exact .map ((applyRules_ensures hs).mono fun r t ⟨happlied, ht⟩ => ⟨.object hsome members r happlied, ht⟩)
    · rename_i hother
      refine .throw ⟨.notObject hsome record ?_, hs⟩
      cases record with
      | object members => exact absurd rfl (hother members)
      | _ => rfl

private theorem Applied.of_skippable {r : Except Failure (List (String × Json))} {f : Failure}
    (h : Applied (lookup.Resolves held) id rules members r) (hr : r = .error f) (hskippable : f.isSkippable) :
    ∃ name reason, f = .partialFailure name reason ∧ (name = id ∨ IsFailureOf lookup f) := by
  induction h with
  | done members => cases hr
  | skips idle rest ih => exact ih hr
  | names reference entity named field fires answer ordered holds rest ih => exact ih hr
  | unknown reference kind key field fires answer =>
    cases hr
    exact ⟨id, _, rfl, .inl rfl⟩
  | fails reference failure field fires answer other =>
    cases hr
    cases f with
    | partialFailure name reason => exact ⟨name, reason, rfl, .inr (.of_resolves answer)⟩
    | notFound kind key => cases other
    | _ => cases hskippable

/-- A failure for which a record is skipped names it, unless the service has chosen the name. -/
theorem Becomes.of_skippable {f : Failure} (h : Becomes (lookup.Resolves held) rules idField record (.error f))
    (hskippable : f.isSkippable) :
    ∃ name reason, f = .partialFailure name reason ∧ (name = recordId record idField ∨ IsFailureOf lookup f) := by
  generalize hr : (.error f : Except Failure Json) = r at h
  cases h with
  | asIs none => cases hr
  | object some members applied happlied =>
    cases applied with
    | ok out => cases hr
    | error cause =>
      cases hr
      exact happlied.of_skippable rfl hskippable
  | notObject some other =>
    cases hr
    exact ⟨_, _, rfl, .inl rfl⟩

end Enrichment
end BatchExport
