import BatchExport.Reference.Cache

/-! What the tables of the cache hold. Main statements: what is found under a key after an entry is kept, dropped or
forgotten with its kind. -/
namespace BatchExport

namespace Kept

variable {α : Type} {kept : Kept α} {kind kind' : ReferenceKind} {text text' : String} {value found : α}

theorem get?_cons (key : ReferenceKind × String) (value : α) (rest : Kept α) (kind : ReferenceKind) (text : String) :
    get? ((key, value) :: rest) kind text = if (kind, text) = key then some value else get? rest kind text := by
  rw [get?, get?, List.lookup_cons]
  by_cases hkey : (kind, text) = key
  · rw [if_pos hkey, hkey, beq_self_eq_true]
  · rw [if_neg hkey, beq_false_of_ne hkey]

/-- Entries that go by their keys. -/
theorem get?_filter (stays : ReferenceKind × String → Bool) (kept : Kept α) (kind : ReferenceKind) (text : String) :
    get? (kept.filter fun entry => stays entry.1) kind text =
      if stays (kind, text) then get? kept kind text else none := by
  induction kept with
  | nil => exact (ite_self _).symm
  | cons entry rest ih =>
    obtain ⟨key, value⟩ := entry
    rw [List.filter_cons, get?_cons]
    by_cases hkey : (kind, text) = key
    · rw [hkey] at ih ⊢
      cases hstays : stays key with
      | true => simp only [if_true, ← hkey, get?_cons]
      | false => simpa only [hstays, if_false, Bool.false_eq_true] using ih
    · rw [if_neg hkey]
      cases hstays : stays key with
      | true => simp only [if_true, get?_cons, if_neg hkey, ih]
      | false => simpa only [Bool.false_eq_true, if_false] using ih

section Limit

variable {room : Nat} {entry : (ReferenceKind × String) × α} {rest : Kept α}

theorem limit_of_ne (h : entry.1.1 ≠ kind) : limit kind room (entry :: rest) = entry :: limit kind room rest := by
  cases room <;> simp [limit, h]

theorem limit_zero (h : entry.1.1 = kind) : limit kind 0 (entry :: rest) = limit kind 0 rest := by
  simp [limit, h]

theorem limit_succ (h : entry.1.1 = kind) : limit kind (room + 1) (entry :: rest) = entry :: limit kind room rest := by
  simp [limit, h]

private theorem get?_limit_zero (kept : Kept α) : get? (limit kind 0 kept) kind text = none := by
  induction kept with
  | nil => rfl
  | cons entry rest ih =>
    obtain ⟨key, value⟩ := entry
    by_cases hkind : key.1 = kind
    · rw [limit_zero hkind, ih]
    · rw [limit_of_ne hkind, get?_cons, if_neg (fun h => hkind (by rw [← h])), ih]

/-- What is beyond the limit is gone, and nothing else comes to light. -/
theorem get?_of_limit (h : get? (limit kind room kept) kind' text = some found) : get? kept kind' text = some found := by
  induction kept generalizing room with
  | nil =>
    rw [limit] at h
    exact h
  | cons entry rest ih =>
    obtain ⟨key, value⟩ := entry
    have hcons {room' : Nat} (h : get? ((key, value) :: limit kind room' rest) kind' text = some found) :
        get? ((key, value) :: rest) kind' text = some found := by
      rw [get?_cons] at h ⊢
      by_cases hkey : (kind', text) = key
      · rwa [if_pos hkey] at h ⊢
      · rw [if_neg hkey] at h ⊢
        exact ih h
    by_cases hkind : key.1 = kind
    · cases room with
      | zero =>
        rw [limit_zero hkind] at h
        rw [get?_cons, if_neg, ih h]
        -- None of the kind is found any more.
        intro hkey
        have hsame : kind' = kind := by rw [← hkind, ← hkey]
        rw [hsame, get?_limit_zero] at h
        cases h
      | succ room =>
        rw [limit_succ hkind] at h
        exact hcons h
    · rw [limit_of_ne hkind] at h
      exact hcons h

/-- There is nothing to drop as long as the entries of the kind are not too many. -/
theorem limit_of_room (h : kept.countP (fun entry => entry.1.1 = kind) ≤ room) : limit kind room kept = kept := by
  induction kept generalizing room with
  | nil => rw [limit]
  | cons entry rest ih =>
    rw [List.countP_cons] at h
    by_cases hkind : entry.1.1 = kind
    · simp only [hkind, decide_true, if_true] at h
      cases room with
      | zero => omega
      | succ room => rw [limit_succ hkind, ih (Nat.le_of_succ_le_succ h)]
    · simp only [hkind, decide_false, Bool.false_eq_true, if_false, Nat.add_zero] at h
      rw [limit_of_ne hkind, ih h]

end Limit

/-- Entries of the kind under other keys; they are not in the way of the key as long as they are fewer than may be. -/
def others (kept : Kept α) (kind : ReferenceKind) (text : String) : Nat :=
  kept.countP fun entry => entry.1.1 = kind ∧ entry.1 ≠ (kind, text)

theorem get?_put {capacity : Nat} (h : get? (put capacity kind text value kept) kind' text' = some found) :
    (if (kind', text') = (kind, text) then some value else get? kept kind' text') = some found := by
  have hall := get?_of_limit h
  rw [get?_cons] at hall
  split at hall
  · rwa [if_pos ‹_›]
  · rename_i hkey
    rw [if_neg hkey]
    rw [get?_filter (fun key => decide (key ≠ (kind, text)))] at hall
    split at hall
    · exact hall
    · cases hall

theorem get?_put_of_room {capacity : Nat} (h : others kept kind text < capacity) :
    get? (put capacity kind text value kept) kind' text' =
      if (kind', text') = (kind, text) then some value else get? kept kind' text' := by
  have hroom : (((kind, text), value) :: kept.filter fun entry => entry.1 ≠ (kind, text)).countP
      (fun entry => entry.1.1 = kind) ≤ capacity := by
    rw [List.countP_cons, List.countP_filter]
    simp only [decide_true, if_true]
    simp only [others, Bool.decide_and] at h
    exact h
  rw [put, limit_of_room hroom, get?_cons]
  by_cases hkey : (kind', text') = (kind, text)
  · rw [if_pos hkey, if_pos hkey]
  · rw [if_neg hkey, if_neg hkey, get?_filter (fun key => decide (key ≠ (kind, text))), if_pos (decide_eq_true hkey)]

theorem get?_dropKind (kept : Kept α) :
    get? (dropKind kind kept) kind' text = if kind' = kind then none else get? kept kind' text := by
  rw [dropKind, get?_filter (fun key => decide (key.1 ≠ kind))]
  by_cases hkind : kind' = kind <;> simp [hkind]

end Kept

inductive CacheTable where
  | ids
  | names
  deriving DecidableEq

/-- What is kept under an id, and under a name. -/
abbrev CacheTable.Value : CacheTable → Type
  | ids => Json
  | names => List Json

structure CacheKey where
  table : CacheTable
  kind : ReferenceKind
  text : String
  deriving DecidableEq

namespace ReferenceCache

def entries (c : ReferenceCache) : (table : CacheTable) → Kept table.Value
  | .ids => c.byId
  | .names => c.byName

def withEntries : (table : CacheTable) → Kept table.Value → ReferenceCache → ReferenceCache
  | .ids, kept, c => { c with byId := kept }
  | .names, kept, c => { c with byName := kept }

def kept? (c : ReferenceCache) (key : CacheKey) : Option key.table.Value :=
  (c.entries key.table).get? key.kind key.text

def probe : (key : CacheKey) → ReferenceCache → Option key.table.Value × ReferenceCache
  | ⟨.ids, kind, id⟩ => probeId kind id
  | ⟨.names, kind, name⟩ => probeName kind name

def keep : (key : CacheKey) → key.table.Value → ReferenceCache → ReferenceCache
  | ⟨.ids, kind, id⟩ => storeId kind id
  | ⟨.names, kind, name⟩ => storeName kind name

/-- All entries of a kind go from one of the two tables. -/
def forget (table : CacheTable) (kind : ReferenceKind) (c : ReferenceCache) : ReferenceCache :=
  c.withEntries table ((c.entries table).dropKind kind)

/-- One entry goes, because it is too old or in the way. -/
def drop (key : CacheKey) (c : ReferenceCache) : ReferenceCache :=
  c.withEntries key.table ((c.entries key.table).filter fun entry => entry.1 ≠ (key.kind, key.text))

/-- An entry under the key would not take the place of another one. -/
def HasRoom (c : ReferenceCache) (key : CacheKey) : Prop :=
  (c.entries key.table).others key.kind key.text < c.room key.kind

instance (c : ReferenceCache) (key : CacheKey) : Decidable (c.HasRoom key) :=
  inferInstanceAs (Decidable (_ < _))

variable {c : ReferenceCache} {key other : CacheKey} {table : CacheTable} {kept : Kept table.Value}

theorem entries_withEntries : (c.withEntries table kept).entries table = kept := by
  cases table <;> rfl

theorem entries_withEntries_of_ne {table' : CacheTable} (h : table' ≠ table) :
    (c.withEntries table kept).entries table' = c.entries table' := by
  cases table <;> cases table' <;> first | rfl | exact absurd rfl h

theorem hits_withEntries : (c.withEntries table kept).hits = c.hits := by
  cases table <;> rfl

theorem misses_withEntries : (c.withEntries table kept).misses = c.misses := by
  cases table <;> rfl

theorem probe_eq (key : CacheKey) (c : ReferenceCache) : c.probe key = (c.kept? key, c.count (c.kept? key).isSome) := by
  obtain ⟨table, kind, text⟩ := key
  cases table <;> rfl

theorem keep_eq (key : CacheKey) (a : key.table.Value) (c : ReferenceCache) : c.keep key a =
    c.withEntries key.table ((c.entries key.table).put (c.room key.kind) key.kind key.text a) := by
  obtain ⟨table, kind, text⟩ := key
  cases table <;> rfl

theorem kept?_count (found : Bool) (key : CacheKey) : (c.count found).kept? key = c.kept? key := by
  obtain ⟨table, kind, text⟩ := key
  cases table <;> cases found <;> rfl

theorem kept?_new (defaultCapacity : Nat) (capacities : List (ReferenceKind × Nat)) (ttl : Option Nat) (key : CacheKey) :
    (new defaultCapacity capacities ttl).kept? key = none := by
  obtain ⟨table, kind, text⟩ := key
  cases table <;> rfl

theorem kept?_withEntries_of_ne (h : key.table ≠ table) : (c.withEntries table kept).kept? key = c.kept? key := by
  rw [kept?, entries_withEntries_of_ne h, kept?]

/-- Under a key that an answer is kept under, nothing but this answer is found. -/
theorem kept?_keep_self {a b : key.table.Value} (h : (c.keep key a).kept? key = some b) : b = a := by
  rw [keep_eq, kept?, entries_withEntries] at h
  have hput := Kept.get?_put h
  rw [if_pos rfl] at hput
  exact (Option.some.inj hput).symm

theorem kept?_of_keep {a : key.table.Value} {b : other.table.Value} (hne : other ≠ key)
    (h : (c.keep key a).kept? other = some b) : c.kept? other = some b := by
  rw [keep_eq] at h
  obtain ⟨table, kind, text⟩ := key
  obtain ⟨table', kind', text'⟩ := other
  by_cases htable : table' = table
  · subst htable
    rw [kept?, entries_withEntries] at h
    have hput := Kept.get?_put h
    rwa [if_neg (by simpa using hne)] at hput
  · rwa [kept?_withEntries_of_ne htable] at h

theorem kept?_keep_of_room (hroom : c.HasRoom key) (a : key.table.Value) : (c.keep key a).kept? key = some a := by
  rw [keep_eq, kept?, entries_withEntries, Kept.get?_put_of_room hroom, if_pos rfl]

theorem kept?_keep_of_ne (hroom : c.HasRoom key) (a : key.table.Value) (hne : other ≠ key) :
    (c.keep key a).kept? other = c.kept? other := by
  rw [keep_eq]
  obtain ⟨table, kind, text⟩ := key
  obtain ⟨table', kind', text'⟩ := other
  by_cases htable : table' = table
  · subst htable
    rw [kept?, entries_withEntries, Kept.get?_put_of_room hroom, if_neg (by simpa using hne)]
    rfl
  · exact kept?_withEntries_of_ne htable

theorem kept?_forget (table : CacheTable) (kind : ReferenceKind) (key : CacheKey) :
    (c.forget table kind).kept? key = if key.table = table ∧ key.kind = kind then none else c.kept? key := by
  obtain ⟨table', kind', text⟩ := key
  rw [forget]
  by_cases htable : table' = table
  · subst htable
    rw [kept?, entries_withEntries, Kept.get?_dropKind]
    simp only [true_and]
    rfl
  · rw [kept?_withEntries_of_ne htable, if_neg fun h => htable h.1]

theorem kept?_drop (dropped key : CacheKey) :
    (c.drop dropped).kept? key = if key = dropped then none else c.kept? key := by
  obtain ⟨table, kind, text⟩ := dropped
  obtain ⟨table', kind', text'⟩ := key
  rw [drop]
  by_cases htable : table' = table
  · subst htable
    rw [kept?, entries_withEntries, Kept.get?_filter (fun key => decide (key ≠ (kind, text)))]
    by_cases hkey : (kind', text') = (kind, text)
    · obtain ⟨rfl, rfl⟩ := Prod.mk.inj hkey
      simp
    · rw [if_pos (decide_eq_true hkey), if_neg (by simpa using hkey)]
      rfl
  · rw [kept?_withEntries_of_ne htable, if_neg (by simp [htable])]

/-- This entity is kept under the id. -/
def Holds (c : ReferenceCache) (kind : ReferenceKind) (id : String) (entity : Json) : Prop :=
  c.kept? ⟨.ids, kind, id⟩ = some entity

/-- Nothing but such entities is kept under ids. -/
def HoldsOnly (c : ReferenceCache) (p : ReferenceKind → String → Json → Prop) : Prop :=
  ∀ kind id entity, c.Holds kind id entity → p kind id entity

namespace HoldsOnly

variable {p : ReferenceKind → String → Json → Prop}

theorem count (h : c.HoldsOnly p) (found : Bool) : (c.count found).HoldsOnly p := by
  intro kind id entity hkept
  rw [Holds, kept?_count] at hkept
  exact h kind id entity hkept

theorem storeId (h : c.HoldsOnly p) {kind : ReferenceKind} {id : String} {entity : Json} (hp : p kind id entity) :
    (c.storeId kind id entity).HoldsOnly p := by
  intro kind' id' entity' hkept
  have hstored : (c.keep ⟨.ids, kind, id⟩ entity).kept? ⟨.ids, kind', id'⟩ = some entity' := hkept
  by_cases hkey : (⟨.ids, kind', id'⟩ : CacheKey) = ⟨.ids, kind, id⟩
  · cases hkey
    rwa [kept?_keep_self hstored]
  · exact h kind' id' entity' (kept?_of_keep hkey hstored)

/-- An entry may get lost. -/
theorem drop (h : c.HoldsOnly p) (key : CacheKey) : (c.drop key).HoldsOnly p := by
  intro kind id entity hkept
  rw [Holds, kept?_drop] at hkept
  split at hkept
  · cases hkept
  · exact h kind id entity hkept

end HoldsOnly

end ReferenceCache
end BatchExport
