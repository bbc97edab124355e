import BatchExport.Failure

/-! Errors that name their cause, and the search for the deepest one. -/
namespace BatchExport

/-- An error of a graph of errors; its cause is another error of the graph, by position. -/
structure CauseNode where
  message : String
  cause : Option Nat
  deriving DecidableEq, Repr

/-- A finite set of errors; the position of an error is its identity. -/
abbrev CauseGraph := List CauseNode

namespace CauseGraph

def cause? (g : CauseGraph) (i : Nat) : Option Nat := g[i]?.bind (·.cause)

def message (g : CauseGraph) (i : Nat) : String := g[i]?.elim "" (·.message)

/-- Follow causes until there is none or one that was visited before. -/
def descend (g : CauseGraph) : Nat → List Nat → Nat → Nat
  | 0, _, i => i
  | n + 1, visited, i =>
    match g.cause? i with
    | none => i
    | some j => if j ∈ visited then i else g.descend n (j :: visited) j

/-- Each step visits another error, so the size of the graph bounds the walk. -/
def rootCause (g : CauseGraph) (start : Nat) : Nat := g.descend (g.length + 1) [start] start

/-- Messages in a row, each error caused by the next, the last one by the error at `back`. -/
def ofChain (messages : List String) (back : Option Nat) : CauseGraph :=
  messages.mapIdx fun i m => ⟨m, if i + 1 < messages.length then some (i + 1) else back⟩

end CauseGraph

/-- A failure recorded against an execution: the first error of a graph, with all its causes. -/
structure RecordedFailure where
  causes : CauseGraph
  deriving DecidableEq, Repr

namespace RecordedFailure

def ofFailure (f : Failure) : RecordedFailure := ⟨.ofChain f.chain none⟩

/-- A text alone is an error without a cause. -/
def ofText (s : String) : RecordedFailure := ⟨.ofChain [s] none⟩

def message (f : RecordedFailure) : String := f.causes.message 0

/-- The message of the deepest cause. -/
def rootMessage (f : RecordedFailure) : String := f.causes.message (f.causes.rootCause 0)

end RecordedFailure
end BatchExport
