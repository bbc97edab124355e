import BatchExport.Decimal.Power
import BatchExport.Enrichment
import BatchExport.Export.RecordSource
import BatchExport.Files.Staged
import BatchExport.Files.WorkPath
import BatchExport.Job.ChunkStep
import BatchExport.Lifecycle.Run
import BatchExport.OutputFiles

/-! The export of one source: records are enriched and staged one by one, and the staged files are stored. -/
namespace BatchExport

structure ExportJob (ω : Type) where
  sourceName : String
  source : SourceSettings
  fetch : Fetch (Worker ω) Json
  lookup : ReferenceLookup (Worker ω)
  /-- Keeps a staged file. Answers where it is kept. -/
  store : String → Effect (Worker ω) String
  /-- How many records a buffer can be made for. It takes less than 2^63 bytes, and a record 32 of them. -/
  room : Nat := (twoTo 63 - 1) / 32

/-- What the step of an export works on. -/
structure ExportStage (ω : Type) where
  source : RecordSource
  output : StagedOutput
  worker : Worker ω

namespace ExportStage

variable {ω : Type}

def onSource (e : Effect (RecordSource × Worker ω) α) : Effect (ExportStage ω) α :=
  e.onPart (fun s => (s.source, s.worker)) fun (source, worker) s => { s with source, worker }

def onOutput (e : Effect (StagedOutput × FileTree) α) : Effect (ExportStage ω) α :=
  e.onPart (fun s => (s.output, s.worker.files))
    fun (output, files) s => { s with output, worker := { s.worker with files } }

/-- The cache belongs to the worker; questions to the service do not change it. -/
def onCache (e : Effect (ReferenceCache × Worker ω) α) : Effect (ExportStage ω) α :=
  e.onPart (fun s => (s.worker.cache, s.worker)) fun (cache, worker) s => { s with worker := { worker with cache } }

end ExportStage

namespace ExportJob

variable {ω : Type}

def name (j : ExportJob ω) : String := j.sourceName ++ "-export"

def stepName (j : ExportJob ω) : String := j.source.stepName.getD (j.sourceName ++ "ExportStep")

def missingPath : Failure := .malformedRequest ("missing " ++ Key.tempOutputPath ++ " parameter")

def flow (j : ExportJob ω) (fuel : Nat) (id : ExecutionId) : ItemFlow (ExportStage ω) Json Json where
  stopRequested s := s.worker.stopRequested id
  next := ExportStage.onSource (RecordSource.next fuel j.fetch)
  process record := some <$> ExportStage.onCache (Enrichment.process j.lookup j.source.enrich j.source.idField record)
  write items := ExportStage.onOutput (StagedOutput.write items)
  writeSkipped f := ExportStage.onOutput (StagedOutput.writeSkipped f)
  close := ExportStage.onOutput StagedOutput.close

def step (j : ExportJob ω) (fuel : Nat) (id : ExecutionId) : ChunkStep (ExportStage ω) Json Json :=
  { name := j.stepName, chunkSize := j.source.chunkSize, room := j.room, flow := j.flow fuel id }

def onFiles (e : Effect FileTree α) : Effect (Execution × Worker ω) α :=
  e.onPart (·.2.files) fun files (e, w) => (e, { w with files })

def onWorker (e : Effect (Worker ω) α) : Effect (Execution × Worker ω) α := e.onPart (·.2) fun w s => (s.1, w)

/-- Stage all records. What the writer had not yet put into the files when the step failed is lost. -/
def stage (j : ExportJob ω) (fuel : Nat) (source : RecordSource) (output : StagedOutput) :
    Effect (Execution × Worker ω) Unit :=
  .ofRun fun (e, w) =>
    (((j.step fuel e.id).execute fuel w.now).run (e, ⟨source, output, w⟩)).map fun (r, e, s) => (r, e, s.worker)

/-- Store the staged files that are there. -/
def storeStaged (j : ExportJob ω) : List String → Effect (Execution × Worker ω) (List String)
  | [] => pure []
  | path :: rest => do
    let there ← onFiles (.ofStep fun t =>
      ((t.exists? path).mapError fun fault => .storage ("Failed to check " ++ path ++ ": " ++ fault.message), t))
    if !there then storeStaged j rest
    else return (← onWorker (j.store path)) :: (← storeStaged j rest)

def isStopped : Effect (Execution × Worker ω) Bool := .ofChange fun (e, w) => (w.stopRequested e.id, e, w)

def tempPath : Effect (Execution × Worker ω) String := do
  match (← get).1.parameters.nonBlank? Key.tempOutputPath with
  | some path => return path
  | none => throw missingPath

/-- A stopped export stores nothing. The stored files are listed in the context, in the order of storing. -/
def execute (j : ExportJob ω) (fuel : Nat) : Effect (Execution × Worker ω) Unit := do
  let temp ← tempPath
  let records := WorkPath.records temp
  let errors := WorkPath.errors temp
  let output ← onFiles (StagedOutput.create records errors)
  match RecordSource.ofSettings j.sourceName j.source with
  | .error f => throw f
  | .ok source =>
    j.stage fuel source output
    if ← isStopped then return
    let stored ← j.storeStaged [records, errors]
    .ofChange fun (e, w) => ((), e.putContext Key.outputFiles (OutputFiles.join stored), w)

def part (j : ExportJob ω) (fuel : Nat) : JobPart ω := { act := j.execute fuel }

end ExportJob
end BatchExport
