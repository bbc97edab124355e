import BatchExport.Failure

/-! Computations that may fail and that change a state either way. -/
namespace BatchExport

/-- No answer at all means that the computation did not end within its fuel, or took the whole program with it. -/
abbrev Effect (σ α : Type) := ExceptT Failure (StateT σ Option) α

namespace Effect

variable {σ τ α : Type}

/-- What a computation answers and leaves behind. -/
abbrev Outcome (σ α : Type) := Except Failure α × σ

def run (e : Effect σ α) (s : σ) : Option (Outcome σ α) := e s

def ofRun (f : σ → Option (Outcome σ α)) : Effect σ α := f

/-- A computation that always ends. -/
def ofStep (f : σ → Outcome σ α) : Effect σ α := ofRun fun s => some (f s)

/-- A change of the state that cannot fail. -/
def ofChange (f : σ → α × σ) : Effect σ α := ofStep fun s => (.ok (f s).1, (f s).2)

/-- A computation on a part of a larger state. -/
def onPart (get : τ → σ) (set : σ → τ → τ) (e : Effect σ α) : Effect τ α :=
  ofRun fun t => (e.run (get t)).map fun (r, s) => (r, set s t)

/-- The failure, if there is one, becomes part of the answer. -/
def attempt (e : Effect σ α) : Effect σ (Except Failure α) :=
  ofRun fun s => (e.run s).map fun (r, s) => (.ok r, s)

/-- What a computation leaves behind, whatever its answer; one that does not end leaves all as it was. -/
def aftermath (e : Effect σ α) (s : σ) : σ := ((e.run s).map (·.2)).getD s

def mapFailure (f : Failure → Failure) (e : Effect σ α) : Effect σ α :=
  ofRun fun s => (e.run s).map fun (r, s) => (r.mapError f, s)

end Effect
end BatchExport
