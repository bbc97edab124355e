import BatchExport.Export.Job
import BatchExport.Lifecycle.Runner
import BatchExport.Remote.Collection
import BatchExport.Remote.Publisher
import BatchExport.Remote.References

/-! An export as a configuration describes it, and its run, which a shutdown may interrupt. -/
namespace BatchExport

/-- What surrounds the process. -/
structure Host (ω : Type) where
  net : Network ω
  /-- Has somebody asked the process to shut down? -/
  shutdownAsked : ω → Bool := fun _ => false

def ReferenceCache.ofSettings (s : CacheSettings) : ReferenceCache :=
  .new s.defaultCapacity s.kindCapacities s.ttlSeconds

structure ExportPlan where
  config : Config
  sourceName : String
  source : SourceSettings
  job : JobId
  /-- An update job has a snapshot to go back to. -/
  snapshot : Option String
  deriving DecidableEq, Repr

/-- An execution that has ended. -/
structure ExportResult where
  execution : Execution
  interrupted : Bool
  rollback : Option (Except Failure RollbackOutcome)

namespace ExportPlan

variable {ω : Type}

def tempPath (p : ExportPlan) : String :=
  WorkPath.tempPath p.config.application.workDir p.config.application.name p.job p.sourceName

def parameters (p : ExportPlan) : JobParameters :=
  Entries.ofList <| [(Key.jobId, p.job.text), (Key.tempOutputPath, p.tempPath)] ++
    p.snapshot.toList.map ((Key.rollbackFile, ·))

def listeners (p : ExportPlan) : List Listener := [.notifier p.config.notifier.describedSteps, .rollback]

def client (p : ExportPlan) : RemoteClient := .ofSettings p.config.remote

/-- A request during which somebody may ask for a shutdown, which stops the execution. -/
def onHost (host : Host ω) (id : ExecutionId) (e : Effect ω α) : Effect (Worker ω) α :=
  .ofRun fun w => ((Worker.onOutside e).run w).map fun (r, w) =>
    (r, if host.shutdownAsked w.outside then (w.requestStop id).2 else w)

def exportJob (p : ExportPlan) (host : Host ω) (id : ExecutionId) : ExportJob ω :=
  let references := RemoteReferences.lookup p.client host.net
  { sourceName := p.sourceName
    source := p.source
    fetch := fun r => onHost host id ((RemoteCollection.ofSource p.client p.source).fetch host.net r)
    lookup := {
      byId := fun kind key => onHost host id (references.byId kind key)
      byQuery := fun kind query => onHost host id (references.byQuery kind query) }
    store := fun path => Worker.onFiles (Storage.store p.config.storage.outputDir path) }

def surroundings (p : ExportPlan) (host : Host ω) (publisher : Publisher) : Surroundings ω where
  publish := publisher.publish host.net
  restorer := .intoDirectory ω p.config.rollback.restoreDir

/-- The execution, which an update job can roll back from now on. -/
def prepare (p : ExportPlan) (jobName : String) (w : Worker ω) : Execution × Worker ω :=
  let (e, w) := (w.park p.job ⟨p.job.text⟩).2.prepare jobName p.parameters
  match p.snapshot with
  | none => (e, w)
  | some snapshot => (e, (w.recordSnapshot p.job snapshot).bind e.id p.job)

/-- A shutdown stops the execution. An update job is rolled back as well. -/
def interrupt (p : ExportPlan) (s : Surroundings ω) (fuel : Nat) (r : Runner ω) (id : ExecutionId) :
    Option (Except Failure RollbackOutcome) × Runner ω :=
  match p.snapshot with
  | none => (none, (r.requestStop id).2)
  | some _ =>
    let (outcomes, r) := r.rollBack s fuel p.job 1
    (outcomes.head?.join, r)

/-- Run the export. No result if it does not end within its fuel. -/
def run (p : ExportPlan) (host : Host ω) (publisher : Publisher) (fuel : Nat) (w : Worker ω) :
    Option ExportResult × Worker ω :=
  let s := p.surroundings host publisher
  let job := p.exportJob host w.nextId
  let (e, w) := p.prepare job.name w
  let asked (w : Worker ω) : Bool := host.shutdownAsked w.outside
  let start : Run ω := { listeners := p.listeners, job := [job.part fuel], execution := e }
  let (r, w) := start.goOn s asked fuel w
  if r.isEnded then (some ⟨r.execution, false, none⟩, w)
  else if !asked w then (none, w)
  else
    let (rollback, runner) := p.interrupt s fuel { worker := w, listeners := [], launched := [.run r] } e.id
    let (e?, runner) := runner.join s fuel e.id
    (e?.map fun e => ⟨e, true, rollback⟩, runner.worker)

end ExportPlan
end BatchExport
