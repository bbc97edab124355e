import BatchExport.Export.Plan
import BatchExport.Proofs.Files.Naming
import BatchExport.Proofs.Job.Keeping
import BatchExport.Proofs.Lifecycle.Steps
import BatchExport.Proofs.Paging.CursorSource
import BatchExport.Proofs.Paging.OffsetSource

/-! What the services of an export leave alone. Main statements: an export is confined to its execution if its services
spare what is not theirs, and leaves its parameters alone in any case; it makes no entry with a name that no path can
lead to if its services make none. -/
namespace BatchExport

section Sources

variable {σ : Type} {rel : σ → σ → Prop} {fetch : Fetch σ Json}

private theorem offset_next_keeps (hrefl : ∀ w, rel w w) (hfetch : ∀ r, (fetch r).Keeps rel) :
    (OffsetSource.next fetch).Keeps fun x y => rel x.2 y.2 := by
  intro ⟨s, w⟩ r ⟨s', w'⟩ hrun
  cases OffsetSource.next_turn hrun with
  | settled _ | full _ _ | buffered _ _ _ => exact hrefl w
  | fails _ _ _ hfetched => exact hfetch _ _ _ _ hfetched
  | accepts _ _ _ hfetched => exact hfetch _ _ _ _ hfetched

private theorem cursor_go_keeps (hrefl : ∀ w, rel w w) (htrans : ∀ {a b c}, rel a b → rel b c → rel a c)
    (hfetch : ∀ r, (fetch r).Keeps rel) {fuel : Nat} {s s' : CursorSource Json} {w w' : σ} {r : Except Failure Unit}
    (hrun : CursorSource.fill.go fetch fuel s w = some (r, s', w')) : rel w w' := by
  induction fuel generalizing s w with
  | zero =>
    cases CursorSource.go_round hrun with
    | rests _ hworld =>
      subst hworld
      exact hrefl w'
  | succ fuel ih =>
    cases CursorSource.go_round hrun with
    | rests _ hworld =>
      subst hworld
      exact hrefl w'
    | fails _ hfetched => exact hfetch _ _ _ _ hfetched
    | accepts _ hfetched hrest => exact htrans (hfetch _ _ _ _ hfetched) (ih hrest)

private theorem cursor_next_keeps (hrefl : ∀ w, rel w w) (htrans : ∀ {a b c}, rel a b → rel b c → rel a c)
    (hfetch : ∀ r, (fetch r).Keeps rel) (fuel : Nat) :
    (CursorSource.next fuel fetch).Keeps fun x y => rel x.2 y.2 := by
  intro x r y hrun
  obtain ⟨s, w⟩ := x
  simp only [CursorSource.next, Effect.run_ofRun] at hrun
  split at hrun
  · cases hrun
    exact hrefl w
  · obtain ⟨⟨answer, s', w'⟩, hanswer, heq⟩ := Option.map_eq_some_iff.mp hrun
    have hw := cursor_go_keeps hrefl htrans hfetch hanswer
    cases answer <;> cases heq <;> exact hw

theorem RecordSource.next_keeps (hrefl : ∀ w, rel w w) (htrans : ∀ {a b c}, rel a b → rel b c → rel a c)
    (hfetch : ∀ r, (fetch r).Keeps rel) (fuel : Nat) : (RecordSource.next fuel fetch).Keeps fun x y => rel x.2 y.2 := by
  intro x r y hrun
  obtain ⟨source, w⟩ := x
  cases source with
  | offset s =>
    obtain ⟨⟨answer, s', w'⟩, hnext, heq⟩ := Option.map_eq_some_iff.mp hrun
    cases heq
    exact offset_next_keeps hrefl hfetch _ _ _ hnext
  | cursor s =>
    obtain ⟨⟨answer, s', w'⟩, hnext, heq⟩ := Option.map_eq_some_iff.mp hrun
    cases heq
    exact cursor_next_keeps hrefl htrans hfetch fuel _ _ _ hnext

end Sources

section Lookups

variable {σ : Type} {rel : σ → σ → Prop} {lookup : ReferenceLookup σ}

private theorem resolveId_keeps (hrefl : ∀ w, rel w w) (htrans : ∀ {a b c}, rel a b → rel b c → rel a c)
    (hlookup : ∀ kind key, (lookup.byId kind key).Keeps rel) (kind : ReferenceKind) (key : String) :
    (ReferenceCache.resolveId lookup kind key).Keeps fun x y => rel x.2 y.2 := by
  have hstep {α : Type} (f : ReferenceCache → α × ReferenceCache) :
      (ReferenceCache.step f : Effect (ReferenceCache × σ) α).Keeps fun x y => rel x.2 y.2 :=
    fun x => .ofChange (hrefl x.2)
  have hservice : (ReferenceCache.fromService (lookup.byId kind key)).Keeps fun x y => rel x.2 y.2 :=
    .onPart (hlookup kind key) fun _ _ h => h
  refine .bind htrans (hstep _) fun found => ?_
  cases found with
  | some entity => exact .pure (fun x => hrefl x.2) entity
  | none => exact .bind htrans hservice fun _ => hstep _

theorem Enrichment.process_keeps (hrefl : ∀ w, rel w w) (htrans : ∀ {a b c}, rel a b → rel b c → rel a c)
    (hlookup : ∀ kind key, (lookup.byId kind key).Keeps rel) (rules : List EnrichRule) (idField : String)
    (record : Json) : (process lookup rules idField record).Keeps fun x y => rel x.2 y.2 := by
  have hrules (id : String) (members : List (String × Json)) :
      (applyRules lookup id rules members).Keeps fun x y => rel x.2 y.2 := by
    induction rules generalizing members with
    | nil => exact .pure (fun x => hrefl x.2) members
    | cons rule rules ih =>
      rw [applyRules]
      split
      · exact ih members
      · exact .bind htrans (resolveId_keeps hrefl htrans hlookup _ _).mapFailure fun _ => ih _
  rw [process]
  split
  · exact .pure (fun x => hrefl x.2) record
  · dsimp only
    split
    · exact .map (hrules _ _)
    · exact .throw (fun x => hrefl x.2) _

end Lookups

def Worker.SameFiles {ω : Type} (w w' : Worker ω) : Prop := w'.files = w.files

theorem Worker.SameFiles.refl {ω : Type} (w : Worker ω) : w.SameFiles w := rfl

theorem Worker.SameFiles.trans {ω : Type} {w w' w'' : Worker ω} (h : w.SameFiles w') (h' : w'.SameFiles w'') :
    w.SameFiles w'' := Eq.trans h' h

/-- No file has come with a name that no path can lead to. -/
def Worker.KeepsNames {ω : Type} (w w' : Worker ω) : Prop := w.files.KeepsNames w'.files

namespace ExportJob

variable {ω : Type} {j : ExportJob ω} {rel : Worker ω → Worker ω → Prop}

/-- Whatever they are asked, the services of a job keep this. -/
structure ServicesKeep (j : ExportJob ω) (rel : Worker ω → Worker ω → Prop) : Prop where
  fetch : ∀ r, (j.fetch r).Keeps rel
  byId : ∀ kind key, (j.lookup.byId kind key).Keeps rel

theorem ServicesKeep.mono {rel' : Worker ω → Worker ω → Prop} (h : j.ServicesKeep rel)
    (himp : ∀ w w', rel w w' → rel' w w') : j.ServicesKeep rel' where
  fetch r w := (h.fetch r w).mono fun _ w' hrel => himp w w' hrel
  byId kind key w := (h.byId kind key w).mono fun _ w' hrel => himp w w' hrel

/-- Neither the services of a job nor its storage make an entry with a name that no path can lead to. -/
structure KeepsNames (j : ExportJob ω) : Prop where
  services : j.ServicesKeep Worker.KeepsNames
  store : ∀ path, (j.store path).Keeps Worker.KeepsNames

/-- Pulling a record leaves the output to the writer. -/
theorem next_keeps (h : j.ServicesKeep rel) (hrefl : ∀ w, rel w w) (htrans : ∀ {a b c}, rel a b → rel b c → rel a c)
    (fuel : Nat) (id : ExecutionId) :
    (j.flow fuel id).next.Keeps fun x y => y.output = x.output ∧ rel x.worker y.worker := by
  have hnext := RecordSource.next_keeps hrefl htrans h.fetch fuel
  have hsource : (ExportStage.onSource (RecordSource.next fuel j.fetch)).Keeps
      fun x y => y.output = x.output ∧ rel x.worker y.worker :=
    .onPart hnext fun _ _ hrel => ⟨rfl, hrel⟩
  exact hsource

theorem process_keeps (h : j.ServicesKeep rel) (hrefl : ∀ w, rel w w) (htrans : ∀ {a b c}, rel a b → rel b c → rel a c)
    (hcache : ∀ {w w'} cache, rel w w' → rel w { w' with cache }) (fuel : Nat) (id : ExecutionId) (record : Json) :
    ((j.flow fuel id).process record).Keeps fun x y => y.output = x.output ∧ rel x.worker y.worker := by
  have hprocess := Enrichment.process_keeps hrefl htrans h.byId j.source.enrich j.source.idField record
  have henrich : (ExportStage.onCache (Enrichment.process j.lookup j.source.enrich j.source.idField record)).Keeps
      fun x y => y.output = x.output ∧ rel x.worker y.worker :=
    .onPart hprocess fun _ _ hrel => ⟨rfl, hcache _ hrel⟩
  exact .map henrich

/-- The steps of an export change the cache and the files of a worker. -/
structure IsKeptByExport (rel : Worker ω → Worker ω → Prop) : Prop where
  refl : ∀ w, rel w w
  trans : ∀ {w w' w''}, rel w w' → rel w' w'' → rel w w''
  cache : ∀ {w w'} cache, rel w w' → rel w { w' with cache }
  files : ∀ {w : Worker ω} {files}, w.files.KeepsNames files → rel w { w with files }

theorem spares_isKeptByExport : IsKeptByExport (ω := ω) Worker.Spares where
  refl := .refl
  trans := .trans
  cache _ h := ⟨h.bindings, h.running, h.stops⟩
  files _ := ⟨rfl, fun _ => rfl, fun _ h => h⟩

theorem keepsNames_isKeptByExport : IsKeptByExport (ω := ω) Worker.KeepsNames where
  refl w := .refl w.files
  trans h h' := FileTree.KeepsNames.trans h h'
  cache _ h := h
  files h := h

private theorem flow_keeps (hrel : IsKeptByExport rel) (h : j.ServicesKeep rel) (fuel : Nat) (id : ExecutionId) :
    (j.flow fuel id).Keeps fun x y => rel x.worker y.worker := by
  have houtput {e : Effect (StagedOutput × FileTree) Unit} (he : e.Keeps fun x y => x.2.KeepsNames y.2) :
      (ExportStage.onOutput e : Effect (ExportStage ω) Unit).Keeps fun x y => rel x.worker y.worker :=
    .onPart he fun _ _ hnames => hrel.files hnames
  constructor
  · exact fun x => (next_keeps h hrel.refl hrel.trans fuel id x).mono fun _ _ h => h.2
  · exact fun record x => (process_keeps h hrel.refl hrel.trans hrel.cache fuel id record x).mono fun _ _ h => h.2
  · exact fun items => houtput (StagedOutput.write_keepsNames items)
  · exact fun f => houtput (StagedOutput.writeSkipped_keepsNames f)
  · exact houtput StagedOutput.close_keepsNames

/-- The part keeps to its execution. -/
private abbrev Confined (rel : Worker ω → Worker ω → Prop) (x y : Execution × Worker ω) : Prop :=
  y.1.id = x.1.id ∧ y.1.parameters = x.1.parameters ∧ rel x.2 y.2

private theorem confined_refl (hrel : IsKeptByExport rel) (x : Execution × Worker ω) : Confined rel x x :=
  ⟨rfl, rfl, hrel.refl x.2⟩

private theorem confined_trans (hrel : IsKeptByExport rel) {x y z : Execution × Worker ω} (h : Confined rel x y)
    (h' : Confined rel y z) : Confined rel x z :=
  ⟨h'.1.trans h.1, h'.2.1.trans h.2.1, hrel.trans h.2.2 h'.2.2⟩

private theorem stage_confined (hrel : IsKeptByExport rel) (h : j.ServicesKeep rel) (fuel : Nat)
    (source : RecordSource) (output : StagedOutput) : (j.stage fuel source output).Keeps (Confined rel) := by
  intro x r y hrun
  obtain ⟨⟨r, e, s⟩, hstep, heq⟩ := Option.map_eq_some_iff.mp hrun
  cases heq
  obtain ⟨⟨ending, run, s'⟩, hbody, heq'⟩ := Option.map_eq_some_iff.mp (ChunkStep.execute_some hstep).2
  have hkept := ChunkStep.body_keeps (fun (x y : ExportStage ω) => rel x.worker y.worker) (fun x => hrel.refl x.worker)
    hrel.trans (flow_keeps hrel h fuel x.1.id) fuel _ _ _ hbody
  cases ending <;> cases heq' <;> exact ⟨rfl, rfl, hkept⟩

private theorem onFiles_confined {α : Type} {e : Effect FileTree α} (hrel : IsKeptByExport rel)
    (he : e.Keeps FileTree.KeepsNames) : (onFiles e : Effect (Execution × Worker ω) α).Keeps (Confined rel) :=
  .onPart he fun _ _ hnames => ⟨rfl, rfl, hrel.files hnames⟩

private theorem storeStaged_confined (hrel : IsKeptByExport rel) (hstore : ∀ path, (j.store path).Keeps rel)
    (staged : List String) : (j.storeStaged staged).Keeps (Confined rel) := by
  induction staged with
  | nil => exact .pure (confined_refl hrel) []
  | cons path rest ih =>
    refine .bind (confined_trans hrel) (onFiles_confined hrel fun t => .ofStep (.refl t)) fun there => ?_
    split
    · exact ih
    · exact .bind (confined_trans hrel) (.onPart (hstore path) fun _ _ hkept => ⟨rfl, rfl, hkept⟩) fun _ =>
        .bind (confined_trans hrel) ih fun _ => .pure (confined_refl hrel) _

private theorem execute_confined (hrel : IsKeptByExport rel) (h : j.ServicesKeep rel)
    (hstore : ∀ path, (j.store path).Keeps rel) (fuel : Nat) : (j.execute fuel).Keeps (Confined rel) := by
  have hrefl := confined_refl hrel
  have htemp : (tempPath : Effect (Execution × Worker ω) String).Keeps (Confined rel) := by
    refine .bind (confined_trans hrel) (fun x => ?_) fun x => ?_
    · intro r y hrun
      cases hrun
      exact hrefl x
    · split
      · exact .pure hrefl _
      · exact .throw hrefl _
  refine .bind (confined_trans hrel) htemp fun temp =>
    .bind (confined_trans hrel) (onFiles_confined hrel (StagedOutput.create_keepsNames _ _)) fun output => ?_
  split
  · exact .throw hrefl _
  · refine .bind (confined_trans hrel) (stage_confined hrel h fuel _ output) fun _ => ?_
    refine .bind (confined_trans hrel) (fun x => .ofChange (hrefl x)) fun stopped => ?_
    split
    · exact .pure hrefl ()
    · exact .bind (confined_trans hrel) (storeStaged_confined hrel hstore _) fun _ x =>
        .ofChange ⟨rfl, rfl, hrel.refl x.2⟩

/-- An export does nothing to other executions unless its services do. -/
theorem part_isConfined (h : j.ServicesKeep Worker.Spares) (hstore : ∀ path, (j.store path).Keeps Worker.Spares)
    (fuel : Nat) : (j.part fuel).IsConfined :=
  execute_confined spares_isKeptByExport h hstore fuel

/-- Whatever its services do, an export leaves the parameters of its execution alone. -/
theorem execute_keeps_parameters (j : ExportJob ω) (fuel : Nat) :
    (j.execute fuel).Keeps fun x y => y.1.parameters = x.1.parameters := by
  have hrel : IsKeptByExport fun _ _ : Worker ω => True :=
    ⟨fun _ => trivial, fun _ _ => trivial, fun _ _ => trivial, fun _ => trivial⟩
  have hservices : j.ServicesKeep fun _ _ => True := ⟨fun _ _ _ _ _ => trivial, fun _ _ _ _ _ _ => trivial⟩
  exact fun x => (execute_confined hrel hservices (fun _ _ _ _ _ => trivial) fuel x).mono fun _ _ h => h.2.1

theorem execute_keepsNames (h : j.KeepsNames) (fuel : Nat) :
    (j.execute fuel).Keeps fun x y => x.2.KeepsNames y.2 := fun x =>
  (execute_confined keepsNames_isKeptByExport h.services h.store fuel x).mono fun _ _ hconfined => hconfined.2.2

end ExportJob

namespace ExportPlan

variable {ω : Type} (host : Host ω) (id : ExecutionId)

private theorem onHost_keeps {α : Type} (e : Effect ω α) :
    (onHost host id e).Keeps fun w w' => w.SameFiles w' ∧ w'.cache = w.cache ∧ w.Spares w' := by
  intro w r w' hrun
  obtain ⟨⟨r, w₁⟩, he, heq⟩ := Option.map_eq_some_iff.mp hrun
  obtain ⟨outside, -, rfl⟩ := Effect.onPart_some he
  cases heq
  have hspares : w.Spares { w with outside } := ⟨rfl, fun _ => rfl, fun _ h => h⟩
  split
  · exact ⟨rfl, rfl, hspares.trans (Worker.spares_requestStop _ id)⟩
  · exact ⟨rfl, rfl, hspares⟩

/-- Requests go outside; at most somebody asks for a stop meanwhile. -/
theorem exportJob_servicesKeep (p : ExportPlan) :
    (p.exportJob host id).ServicesKeep fun w w' => w.SameFiles w' ∧ w'.cache = w.cache ∧ w.Spares w' where
  fetch _ := onHost_keeps host id _
  byId _ _ := onHost_keeps host id _

theorem exportJob_keepsNames (p : ExportPlan) : (p.exportJob host id).KeepsNames where
  services := (exportJob_servicesKeep host id p).mono fun w w' h => by
    rw [Worker.KeepsNames, h.1]
    exact .refl w.files
  store path := by
    have hstored : (Worker.onFiles (Storage.store p.config.storage.outputDir path)).Keeps
        (Worker.KeepsNames (ω := ω)) :=
      .onPart (Storage.store_keepsNames p.config.storage.outputDir path) fun _ _ hnames => hnames
    exact hstored

/-- The run of an export does nothing to the bindings, or to other executions. -/
theorem part_isConfined (p : ExportPlan) (fuel : Nat) : ((p.exportJob host id).part fuel).IsConfined := by
  have hstore (path : String) : (Worker.onFiles (Storage.store p.config.storage.outputDir path)).Keeps
      (Worker.Spares (ω := ω)) := fun w => .onPart fun _ _ _ => ⟨rfl, fun _ => rfl, fun _ h => h⟩
  exact ExportJob.part_isConfined ((exportJob_servicesKeep host id p).mono fun _ _ h => h.2.2) hstore fuel

end ExportPlan
end BatchExport
