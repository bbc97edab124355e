import BatchExport.Effect
import BatchExport.Json.Value
import BatchExport.Reference.Kind

/-! A read-through cache of reference entities, with a partition for every kind. -/
namespace BatchExport

/-- The service that knows the entities. -/
structure ReferenceLookup (σ : Type) where
  byId : ReferenceKind → String → Effect σ Json
  byQuery : ReferenceKind → String → Effect σ (List Json)

/-- What is kept under a kind and a key, the newest first. -/
abbrev Kept (α : Type) := List ((ReferenceKind × String) × α)

namespace Kept

variable {α : Type}

def get? (kept : Kept α) (kind : ReferenceKind) (key : String) : Option α := kept.lookup (kind, key)

/-- Keep the first entries of a kind, and all of other kinds. -/
def limit (kind : ReferenceKind) : Nat → Kept α → Kept α
  | _, [] => []
  | room, entry :: rest =>
    if entry.1.1 ≠ kind then entry :: limit kind room rest
    else match room with
      | 0 => limit kind 0 rest
      | room + 1 => entry :: limit kind room rest

/-- A full partition drops its oldest entry. -/
def put (capacity : Nat) (kind : ReferenceKind) (key : String) (value : α) (kept : Kept α) : Kept α :=
  limit kind capacity (((kind, key), value) :: kept.filter fun entry => entry.1 ≠ (kind, key))

def dropKind (kind : ReferenceKind) (kept : Kept α) : Kept α := kept.filter fun entry => entry.1.1 ≠ kind

end Kept

structure ReferenceCache where
  /-- Entries that a partition may hold, in each of its two tables. -/
  capacity : ReferenceKind → Nat
  /-- Seconds after which an entry expires. -/
  ttl : Option Nat := none
  byId : Kept Json := []
  byName : Kept (List Json) := []
  hits : Nat := 0
  misses : Nat := 0

namespace ReferenceCache

/-- A kind without a capacity of its own has the default one, and the last of several is the one that counts. -/
def new (defaultCapacity : Nat) (capacities : List (ReferenceKind × Nat)) (ttl : Option Nat) : ReferenceCache :=
  { capacity := fun kind => (capacities.reverse.lookup kind).getD defaultCapacity, ttl }

/-- Entries that expire at once are not kept at all. -/
def room (c : ReferenceCache) (kind : ReferenceKind) : Nat := if c.ttl = some 0 then 0 else c.capacity kind

/-- Lookups so far. -/
def lookups (c : ReferenceCache) : Nat := c.hits + c.misses

/-- Count a lookup by what it found. -/
def count (c : ReferenceCache) (found : Bool) : ReferenceCache :=
  if found then { c with hits := c.hits + 1 } else { c with misses := c.misses + 1 }

def probeId (kind : ReferenceKind) (id : String) (c : ReferenceCache) : Option Json × ReferenceCache :=
  let found := c.byId.get? kind id
  (found, c.count found.isSome)

def probeName (kind : ReferenceKind) (name : String) (c : ReferenceCache) :
    Option (List Json) × ReferenceCache :=
  let found := c.byName.get? kind name
  (found, c.count found.isSome)

def storeId (kind : ReferenceKind) (id : String) (entity : Json) (c : ReferenceCache) : ReferenceCache :=
  { c with byId := c.byId.put (c.room kind) kind id entity }

def storeName (kind : ReferenceKind) (name : String) (entities : List Json) (c : ReferenceCache) :
    ReferenceCache :=
  { c with byName := c.byName.put (c.room kind) kind name entities }

def invalidate (kind : ReferenceKind) (c : ReferenceCache) : ReferenceCache :=
  { c with byId := c.byId.dropKind kind, byName := c.byName.dropKind kind }

variable {σ : Type}

/-- A step on the cache alone. -/
def step (f : ReferenceCache → α × ReferenceCache) : Effect (ReferenceCache × σ) α :=
  .ofChange fun (c, w) =>
    let (a, c) := f c
    (a, c, w)

def fromService (e : Effect σ α) : Effect (ReferenceCache × σ) α := e.onPart (·.2) fun w t => (t.1, w)

/-- What follows a miss: ask the service and keep the answer. -/
def fetchId (lookup : ReferenceLookup σ) (kind : ReferenceKind) (id : String) :
    Effect (ReferenceCache × σ) Json := do
  let entity ← fromService (lookup.byId kind id)
  step fun c => (entity, c.storeId kind id entity)

/-- The entity of an id. Failures are not kept. -/
def resolveId (lookup : ReferenceLookup σ) (kind : ReferenceKind) (id : String) :
    Effect (ReferenceCache × σ) Json := do
  match ← step (probeId kind id) with
  | some entity => return entity
  | none => fetchId lookup kind id

/-- All entities whose query field is the name, in the order of the service. None at all is a failure, and not kept. -/
def resolveAll (lookup : ReferenceLookup σ) (kind : ReferenceKind) (name : String) :
    Effect (ReferenceCache × σ) (List Json) := do
  match ← step (probeName kind name) with
  | some entities => return entities
  | none =>
    let entities ← fromService (lookup.byQuery kind (kind.exactMatchQuery name))
    if entities.isEmpty then throw (.notFound kind.label name)
    step fun c => (entities, c.storeName kind name entities)

/-- The first entity of a name. -/
def resolveName (lookup : ReferenceLookup σ) (kind : ReferenceKind) (name : String) :
    Effect (ReferenceCache × σ) Json := do
  match ← resolveAll lookup kind name with
  | entity :: _ => return entity
  | [] => throw (.notFound kind.label name)

/-- Lookups of one id that all start before any of them has an answer. -/
def resolveTogether (lookup : ReferenceLookup σ) (kind : ReferenceKind) (id : String) (n : Nat) :
    Effect (ReferenceCache × σ) (List (Except Failure Json)) := do
  let probes ← (List.range n).mapM fun _ => step (probeId kind id)
  probes.mapM fun found => Effect.attempt <|
    match found with
    | some entity => pure entity
    | none => fetchId lookup kind id

end ReferenceCache
end BatchExport
