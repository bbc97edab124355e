import BatchExport.Proofs.Export.CachedEnrichment

/-! Rules that leave each other alone. Main statement: in which order they are applied does not matter, and applied again
they change nothing. -/
namespace BatchExport

namespace Enrichment

variable {σ : Type} {service : ReferenceLookup σ} {byId : ReferenceKind → String → Except Failure Json}
  {rules rules' : List EnrichRule} {idField id id' : String} {members members' out : List (String × Json)} {record : Json}

/-- No rule has as its target what another one reads or sets. -/
def AreIndependent (rules : List EnrichRule) : Prop :=
  ∀ a ∈ rules, ∀ b ∈ rules, a ≠ b → a.target ≠ b.field ∧ a.target ≠ b.target

/-- The name that a rule has for its target, if it fires. -/
def named? (byId : ReferenceKind → String → Except Failure Json) (rule : EnrichRule)
    (members : List (String × Json)) : Except Failure (Option Json) :=
  match reference? rule members with
  | none => .ok none
  | some reference => (byId rule.kind reference).map fun entity => some (entityName rule.kind entity)

/-- The target of a rule gets its name. -/
def withName (rule : EnrichRule) (members : List (String × Json)) : Option Json → List (String × Json)
  | none => members
  | some name => Json.insertMember rule.target name members

theorem applyDirectly_eq (byId : ReferenceKind → String → Except Failure Json) (id : String)
    (members : List (String × Json)) (rule : EnrichRule) :
    applyDirectly byId id members rule =
      ((named? byId rule members).map (withName rule members)).mapError (blame id) := by
  rw [named?]
  cases hreference : reference? rule members with
  | none => exact applyDirectly_of_idle hreference
  | some reference =>
    cases hanswer : byId rule.kind reference with
    | ok entity =>
      dsimp only
      rw [applyDirectly_of_fires hreference hanswer, hanswer]
      rfl
    | error f =>
      dsimp only
      rw [applyDirectly_of_refused hreference hanswer, hanswer]
      rfl

theorem applyDirectly_eq_ok_iff {rule : EnrichRule} : applyDirectly byId id members rule = .ok out ↔
    ∃ name, named? byId rule members = .ok name ∧ out = withName rule members name := by
  rw [applyDirectly_eq]
  cases named? byId rule members <;> simp [Except.map, Except.mapError, eq_comm]

/-- The name hangs on the field of the rule alone. -/
theorem named?_congr {rule : EnrichRule} (h : members'.lookup rule.field = members.lookup rule.field) :
    named? byId rule members' = named? byId rule members := by
  rw [named?, named?, reference?, reference?, h]

theorem lookup_withName {rule : EnrichRule} {key : String} (h : rule.target ≠ key) (members : List (String × Json))
    (name : Option Json) : (withName rule members name).lookup key = members.lookup key := by
  cases name with
  | none => rfl
  | some name => rw [withName, Json.lookup_insertMember, if_neg h.symm]

theorem named?_withName {rule other : EnrichRule} (h : other.target ≠ rule.field) (members : List (String × Json))
    (name : Option Json) : named? byId rule (withName other members name) = named? byId rule members :=
  named?_congr (lookup_withName h members name)

theorem withName_comm {a b : EnrichRule} (h : a.target ≠ b.target) (members : List (String × Json))
    (name name' : Option Json) :
    withName a (withName b members name') name = withName b (withName a members name) name' := by
  cases name with
  | none => rfl
  | some name =>
    cases name' with
    | none => rfl
    | some name' => exact Json.insertMember_comm h name name' members

theorem withName_again (rule : EnrichRule) (members : List (String × Json)) (name : Option Json) :
    withName rule (withName rule members name) name = withName rule members name := by
  cases name with
  | none => rfl
  | some name => exact Json.insertMember_insertMember rule.target name name members

theorem AreIndependent.perm (h : AreIndependent rules) (hperm : rules.Perm rules') : AreIndependent rules' :=
  fun a ha b hb => h a (hperm.mem_iff.mpr ha) b (hperm.mem_iff.mpr hb)

theorem foldlM_append_ok_iff : (rules ++ rules').foldlM (applyDirectly byId id) members = .ok out ↔
    ∃ middle, rules.foldlM (applyDirectly byId id) members = .ok middle ∧
      rules'.foldlM (applyDirectly byId id) middle = .ok out := by
  rw [List.foldlM_append]
  cases rules.foldlM (applyDirectly byId id) members <;> simp [bind, Except.bind]

theorem foldlM_cons_ok_iff {rule : EnrichRule} : (rule :: rules).foldlM (applyDirectly byId id) members = .ok out ↔
    ∃ middle, applyDirectly byId id members rule = .ok middle ∧
      rules.foldlM (applyDirectly byId id) middle = .ok out := by
  rw [List.foldlM_cons]
  cases applyDirectly byId id members rule <;> simp [bind, Except.bind]

/-- Two rules that both succeed may change places. -/
theorem apply_comm {a b : EnrichRule} {middle : List (String × Json)} (hfield : a.target ≠ b.field)
    (hfield' : b.target ≠ a.field) (htarget : a.target ≠ b.target) (hfirst : applyDirectly byId id members a = .ok middle)
    (hsecond : applyDirectly byId id middle b = .ok out) :
    ∃ middle', applyDirectly byId id members b = .ok middle' ∧ applyDirectly byId id middle' a = .ok out := by
  obtain ⟨name, hname, rfl⟩ := applyDirectly_eq_ok_iff.mp hfirst
  obtain ⟨name', hname', rfl⟩ := applyDirectly_eq_ok_iff.mp hsecond
  rw [named?_withName hfield] at hname'
  refine ⟨withName b members name', applyDirectly_eq_ok_iff.mpr ⟨name', hname', rfl⟩, ?_⟩
  rw [← withName_comm htarget, applyDirectly_eq_ok_iff]
  exact ⟨name, by rw [named?_withName hfield', hname], rfl⟩

/-- Independent rules that succeed in one order do so in every order, with the same members. -/
theorem foldlM_perm (hperm : rules.Perm rules') (h : AreIndependent rules)
    (hok : rules.foldlM (applyDirectly byId id) members = .ok out) :
    rules'.foldlM (applyDirectly byId id) members = .ok out := by
  induction hperm generalizing members with
  | nil => exact hok
  | cons rule _ ih =>
    obtain ⟨middle, hfirst, hrest⟩ := foldlM_cons_ok_iff.mp hok
    refine foldlM_cons_ok_iff.mpr ⟨middle, hfirst, ih (fun a ha b hb => ?_) hrest⟩
    exact h a (List.mem_cons_of_mem _ ha) b (List.mem_cons_of_mem _ hb)
  | swap b a rules =>
    by_cases hsame : a = b
    · rwa [hsame] at hok ⊢
    · obtain ⟨hfield, htarget⟩ := h a (by simp) b (by simp) hsame
      obtain ⟨hfield', -⟩ := h b (by simp) a (by simp) (Ne.symm hsame)
      obtain ⟨middle, hfirst, hrest⟩ := foldlM_cons_ok_iff.mp hok
      obtain ⟨later, hsecond, hrest⟩ := foldlM_cons_ok_iff.mp hrest
      obtain ⟨middle', hfirst', hsecond'⟩ := apply_comm hfield hfield' htarget hfirst hsecond
      exact foldlM_cons_ok_iff.mpr ⟨middle', hfirst', foldlM_cons_ok_iff.mpr ⟨later, hsecond', hrest⟩⟩
  | trans hfirst _ ih ih' => exact ih' (h.perm hfirst) (ih h hok)

/-- A rule that does not set its own field finds its target as it would set it. -/
theorem apply_again {rule : EnrichRule} (h : rule.target ≠ rule.field)
    (hok : applyDirectly byId id members rule = .ok out) : applyDirectly byId id' out rule = .ok out := by
  obtain ⟨name, hname, rfl⟩ := applyDirectly_eq_ok_iff.mp hok
  refine applyDirectly_eq_ok_iff.mpr ⟨name, ?_, (withName_again rule members name).symm⟩
  rw [named?_withName h, hname]

/-- What independent rules have made of the members they leave as it is. -/
theorem foldlM_again (h : AreIndependent rules) (hown : ∀ rule ∈ rules, rule.target ≠ rule.field)
    (hok : rules.foldlM (applyDirectly byId id) members = .ok out) :
    rules.foldlM (applyDirectly byId id') out = .ok out := by
  -- Any of the rules might have been the last one.
  have hfixed : ∀ rule ∈ rules, applyDirectly byId id' out rule = .ok out := by
    intro rule hrule
    have hlast : rules.Perm (rules.erase rule ++ [rule]) :=
      (List.perm_cons_erase hrule).trans (List.perm_append_singleton rule _).symm
    obtain ⟨middle, -, hend⟩ := foldlM_append_ok_iff.mp (foldlM_perm hlast h hok)
    obtain ⟨out', hrule', hnothing⟩ := foldlM_cons_ok_iff.mp hend
    cases hnothing
    exact apply_again (hown rule hrule) hrule'
  clear hok h hown
  induction rules with
  | nil => rfl
  | cons rule rules ih =>
    exact foldlM_cons_ok_iff.mpr
      ⟨out, hfixed rule List.mem_cons_self, ih fun other hother => hfixed other (List.mem_cons_of_mem _ hother)⟩

/-- Without rules a record need not be an object. -/
theorem direct_eq_ok_iff {enriched : Json} : direct byId rules idField record = .ok enriched ↔
    rules = [] ∧ enriched = record ∨ ∃ members out, record = .object members ∧ enriched = .object out ∧
      rules.foldlM (applyDirectly byId (recordId record idField)) members = .ok out := by
  cases hmembers : record.members? with
  | none =>
    have hobject (members : List (String × Json)) : record ≠ .object members := by
      rintro rfl
      cases hmembers
    by_cases hrules : rules = []
    · subst hrules
      simp [direct, hobject, eq_comm]
    · simp [direct_of_not_object hrules hmembers, hobject, hrules]
  | some members =>
    obtain rfl : record = .object members := by
      cases record <;> cases hmembers
      rfl
    rw [direct_object]
    constructor
    · intro h
      cases hfold : rules.foldlM (applyDirectly byId (recordId (.object members) idField)) members with
      | error f =>
        rw [hfold] at h
        cases h
      | ok out =>
        rw [hfold] at h
        cases h
        exact .inr ⟨members, out, rfl, rfl, hfold⟩
    · rintro (⟨rfl, rfl⟩ | ⟨members', out, hmembers', rfl, hfold⟩)
      · rfl
      · cases hmembers'
        rw [hfold]
        rfl

theorem direct_perm (hperm : rules.Perm rules') (h : AreIndependent rules) {enriched : Json}
    (hok : direct byId rules idField record = .ok enriched) : direct byId rules' idField record = .ok enriched := by
  rw [direct_eq_ok_iff] at hok ⊢
  refine hok.imp ?_ ?_
  · rintro ⟨rfl, rfl⟩
    exact ⟨hperm.nil_eq.symm, rfl⟩
  · rintro ⟨members, out, hmembers, hout, hfold⟩
    exact ⟨members, out, hmembers, hout, foldlM_perm hperm h hfold⟩

theorem direct_again (h : AreIndependent rules) (hown : ∀ rule ∈ rules, rule.target ≠ rule.field) {enriched : Json}
    (hok : direct byId rules idField record = .ok enriched) : direct byId rules idField enriched = .ok enriched := by
  rw [direct_eq_ok_iff] at hok ⊢
  refine hok.imp ?_ ?_
  · exact fun hnothing => ⟨hnothing.1, rfl⟩
  · rintro ⟨members, out, -, rfl, hfold⟩
    exact ⟨out, out, rfl, rfl, foldlM_again h hown hfold⟩

/-- Over a true cache, which stays true, a record comes to what it comes to alone. -/
theorem process_returns_alone (hfixed : service.AnswersIds byId) (rules : List EnrichRule) (idField : String)
    (record : Json) {c : ReferenceCache} (hc : c.IsTrue byId) (w : σ) :
    (process service rules idField record).Returns (c, w) fun r t =>
      r = direct byId rules idField record ∧ t.1.IsTrue byId := by
  have hnoted : service.noted.AnswersIds byId := by
    rintro kind id ⟨calls, w⟩
    obtain ⟨w', hw⟩ := hfixed kind id w
    exact ⟨(calls ++ [(kind, id)], w'), ReferenceLookup.run_noted hw calls⟩
  obtain ⟨r, ⟨c', calls, w'⟩, hrun, hr, hc', -⟩ := process_returns_direct hfixed rules idField record hc w
  have hnotes : (process service.noted rules idField record).Erases _ (process (.ofAnswers byId) rules idField record) :=
    process_erases hnoted record
  have herases : (process service rules idField record).Erases _ (process (.ofAnswers byId) rules idField record) :=
    process_erases hfixed record
  have hanswers := hnotes (c, [], w)
  rw [hrun] at hanswers
  obtain ⟨t, ht, hcache⟩ := herases.run_of_run (t := (c, w)) hanswers.symm
  cases hcache
  exact ⟨r, t, ht, hr, hc'⟩

/-- Rules of which none has as its target what another one reads or sets. If a record gets its names in one order of
the rules, it gets the same ones in every order, over any true caches; and if besides no rule sets what it reads
itself, then the rules, in any order, leave the enriched record as it is. -/
theorem independent_rules_commute (hfixed : service.AnswersIds byId) (h : AreIndependent rules) {c : ReferenceCache}
    (hc : c.IsTrue byId) {w : σ} {enriched : Json} {t : ReferenceCache × σ}
    (hrun : (process service rules idField record).run (c, w) = some (.ok enriched, t)) :
    t.1.IsTrue byId ∧ ∀ rules', rules.Perm rules' → ∀ c' : ReferenceCache, c'.IsTrue byId → ∀ w' : σ,
      (∃ t', (process service rules' idField record).run (c', w') = some (.ok enriched, t') ∧ t'.1.IsTrue byId) ∧
      ((∀ rule ∈ rules, rule.target ≠ rule.field) →
        ∃ t', (process service rules' idField enriched).run (c', w') = some (.ok enriched, t') ∧ t'.1.IsTrue byId) := by
  obtain ⟨r, t₀, hrun₀, hdirect, ht⟩ := process_returns_alone hfixed rules idField record hc w
  cases hrun₀.symm.trans hrun
  refine ⟨ht, fun rules' hperm c' hc' w' => ⟨?_, fun hown => ?_⟩⟩
  · obtain ⟨r, t', hrun', hr, ht'⟩ := process_returns_alone hfixed rules' idField record hc' w'
    rw [direct_perm hperm h hdirect.symm] at hr
    exact ⟨t', hr ▸ hrun', ht'⟩
  · obtain ⟨r, t', hrun', hr, ht'⟩ := process_returns_alone hfixed rules' idField enriched hc' w'
    rw [direct_perm hperm h (direct_again h hown hdirect.symm)] at hr
    exact ⟨t', hr ▸ hrun', ht'⟩

end Enrichment

namespace SharedReference

/-- The place has no name. -/
def byId : ReferenceKind → String → Except Failure Json
  | .user, "u1" => .ok (.object [("username", .string "ann")])
  | .location, "l1" => .ok (.object [("code", .string "x")])
  | kind, id => .error (.notFound kind.label id)

/-- The service counts the questions. -/
def service : ReferenceLookup Nat where
  byId kind id := .ofStep fun n => (byId kind id, n + 1)
  byQuery kind name := throw (.notFound kind.label name)

/-- Two rules read the same member, one sets the id of the record, and the last one does not fire. -/
def rules : List EnrichRule := [⟨"userId", .user, "id"⟩, ⟨"placeId", .location, "place"⟩, ⟨"userId", .user, "owner"⟩,
  ⟨"typeId", .materialType, "type"⟩]

def record : Json := .object [("id", .string "r1"), ("placeId", .string "l1"), ("userId", .string "u1")]

def enriched : Json := .object [("id", .string "ann"), ("owner", .string "ann"), ("place", .null),
  ("placeId", .string "l1"), ("userId", .string "u1")]

theorem enriched_in_reverse : service.AnswersIds byId ∧ Enrichment.AreIndependent rules ∧
    (ReferenceCache.new 1 [] none).IsTrue byId ∧ (∀ rule ∈ rules, rule.target ≠ rule.field) ∧
    (∃ t, (Enrichment.process service rules "id" record).run (.new 1 [] none, 0) = some (.ok enriched, t)) ∧
    (∃ t, (Enrichment.process service rules.reverse "id" record).run (.new 1 [] none, 0) = some (.ok enriched, t)) ∧
    ∃ t, (Enrichment.process service rules.reverse "id" enriched).run (.new 1 [] none, 0) = some (.ok enriched, t) := by
  have hfixed : service.AnswersIds byId := fun kind id n => ⟨n + 1, rfl⟩
  have hindependent : Enrichment.AreIndependent rules := by
    unfold Enrichment.AreIndependent
    decide
  have hnew : (ReferenceCache.new 1 [] none).IsTrue byId := ReferenceCache.isTrue_new 1 [] none
  have hown : ∀ rule ∈ rules, rule.target ≠ rule.field := by decide
  obtain ⟨t, hrun⟩ : ∃ t, (Enrichment.process service rules "id" record).run (.new 1 [] none, 0) =
      some (.ok enriched, t) := ⟨_, rfl⟩
  obtain ⟨-, hany⟩ := Enrichment.independent_rules_commute hfixed hindependent hnew hrun
  obtain ⟨⟨t₁, hreverse, -⟩, hagain⟩ := hany rules.reverse (List.reverse_perm rules).symm _ hnew 0
  obtain ⟨t₂, hsame, -⟩ := hagain hown
  exact ⟨hfixed, hindependent, hnew, hown, ⟨t, hrun⟩, ⟨t₁, hreverse⟩, t₂, hsame⟩

end SharedReference
end BatchExport
