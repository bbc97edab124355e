import BatchExport.Export.Plan
import BatchExport.Proofs.Config.Validity

/-! The capacities of the cache partitions. Main statement: for which configurations every capacity that is asked for
takes effect. A kind goes by two names, one of them in any case, so it can be asked for more than once. -/
namespace BatchExport

namespace ReferenceKind

variable {kind kind' : ReferenceKind} {s : String}

/-- The names of a kind in the configuration: its own, and in any case that of its partition. -/
def IsNamedBy (kind : ReferenceKind) (s : String) : Prop :=
  kind.name = s ∨ Text.asciiLower kind.cacheName = Text.asciiLower s

instance (kind : ReferenceKind) (s : String) : Decidable (kind.IsNamedBy s) :=
  inferInstanceAs (Decidable (_ ∨ _))

theorem mem_all (kind : ReferenceKind) : kind ∈ all := by
  cases kind <;> decide

private theorem eq_of_name_eq (h : kind.name = kind'.name) : kind = kind' := by
  have hname := congrArg ofName? h
  rw [ofName?_name, ofName?_name] at hname
  exact Option.some.inj hname

private theorem eq_of_lower_cacheName_eq :
    Text.asciiLower kind.cacheName = Text.asciiLower kind'.cacheName → kind = kind' := by
  cases kind <;> cases kind' <;> decide

private theorem eq_of_lower_name_eq : Text.asciiLower kind.cacheName = Text.asciiLower kind'.name → kind = kind' := by
  cases kind <;> cases kind' <;> decide

/-- No name is that of two kinds. -/
theorem IsNamedBy.eq (h : kind.IsNamedBy s) (h' : kind'.IsNamedBy s) : kind = kind' := by
  obtain hname | hcache := h
  · obtain hname' | hcache' := h'
    · exact eq_of_name_eq (hname.trans hname'.symm)
    · exact (eq_of_lower_name_eq (by rw [hname, hcache'])).symm
  · obtain hname' | hcache' := h'
    · exact eq_of_lower_name_eq (by rw [hname', hcache])
    · exact eq_of_lower_cacheName_eq (hcache.trans hcache'.symm)

theorem parse?_eq_some_iff : parse? s = some kind ↔ kind.IsNamedBy s := by
  have hnamed (kind : ReferenceKind) :
      (Text.equalIgnoringAsciiCase kind.cacheName s || kind.name == s) = true ↔ kind.IsNamedBy s := by
    rw [Bool.or_eq_true, Text.equalIgnoringAsciiCase, beq_iff_eq, beq_iff_eq, IsNamedBy, or_comm]
  have hparsed {kind : ReferenceKind} (h : parse? s = some kind) : kind.IsNamedBy s :=
    (hnamed kind).mp (List.find?_eq_some_iff_append.mp h).1
  refine ⟨hparsed, fun h => ?_⟩
  obtain ⟨kind', hkind'⟩ : ∃ kind', parse? s = some kind' :=
    Option.isSome_iff_exists.mp (List.find?_isSome.mpr ⟨kind, mem_all kind, (hnamed kind).mpr h⟩)
  rw [hkind', h.eq (hparsed hkind')]

example : IsNamedBy user "USERS" := by decide

end ReferenceKind

namespace CacheSettings

variable {s : CacheSettings} {kind : ReferenceKind} {entry : String × Nat} {n : Nat}

/-- What an entry asks for the kind, if it goes by one of its names. -/
def asked? (kind : ReferenceKind) (entry : String × Nat) : Option Nat :=
  if ReferenceKind.parse? entry.1 = some kind then some entry.2 else none

theorem asked?_eq_none (h : ReferenceKind.parse? entry.1 ≠ some kind) : asked? kind entry = none := if_neg h

/-- The capacities that are asked for a kind, by whichever of its names, in the order of the names. -/
def capacitiesOf (s : CacheSettings) (kind : ReferenceKind) : List Nat := s.capacities.filterMap (asked? kind)

theorem mem_capacitiesOf :
    n ∈ s.capacitiesOf kind ↔ ∃ name, (name, n) ∈ s.capacities ∧ ReferenceKind.parse? name = some kind := by
  simp [capacitiesOf, asked?]

/-- The last capacity that is asked for a kind is the one that it has. -/
theorem capacity_ofSettings (s : CacheSettings) (kind : ReferenceKind) :
    (ReferenceCache.ofSettings s).capacity kind = (s.capacitiesOf kind).getLast?.getD s.defaultCapacity := by
  have hasked (name : String) (n : Nat) :
      ((ReferenceKind.parse? name).map (·, n)).bind (fun p => if kind == p.1 then some p.2 else none) =
        asked? kind (name, n) := by
    rw [asked?]
    cases ReferenceKind.parse? name with
    | none => rfl
    | some kind' =>
      rw [Option.map_some, Option.bind_some]
      by_cases hkind : kind = kind'
      · rw [hkind, if_pos rfl, if_pos (beq_self_eq_true kind')]
      · rw [if_neg (fun h => hkind (Option.some.inj h).symm), if_neg (fun h => hkind (eq_of_beq h))]
  have hlast : s.kindCapacities.reverse.lookup kind = (s.capacitiesOf kind).getLast? := by
    rw [List.lookup_eq_findSome?, ← List.getLast?_filterMap, kindCapacities, List.filterMap_filterMap, capacitiesOf]
    congr 2
    funext entry
    exact hasked entry.1 entry.2
  exact congrArg (fun last? => last?.getD s.defaultCapacity) hlast

theorem capacity_of_forall_ne (h : ∀ entry ∈ s.capacities, ReferenceKind.parse? entry.1 ≠ some kind) :
    (ReferenceCache.ofSettings s).capacity kind = s.defaultCapacity := by
  have hnone : s.capacitiesOf kind = [] :=
    List.filterMap_eq_nil_iff.mpr fun entry hentry => asked?_eq_none (h entry hentry)
  rw [capacity_ofSettings, hnone, List.getLast?_nil, Option.getD_none]

/-- What is asked for later, under another name of the kind, takes the place of what is asked for earlier. -/
theorem capacity_of_last {before after : List (String × Nat)} {name : String}
    (hcapacities : s.capacities = before ++ (name, n) :: after) (hname : ReferenceKind.parse? name = some kind)
    (hafter : ∀ entry ∈ after, ReferenceKind.parse? entry.1 ≠ some kind) :
    (ReferenceCache.ofSettings s).capacity kind = n := by
  have hnone : after.filterMap (asked? kind) = [] :=
    List.filterMap_eq_nil_iff.mpr fun entry hentry => asked?_eq_none (hafter entry hentry)
  have hlast : asked? kind (name, n) = some n := if_pos hname
  rw [capacity_ofSettings, capacitiesOf, hcapacities, List.filterMap_append, List.filterMap_cons_some hlast, hnone,
    List.getLast?_concat, Option.getD_some]

/-- All capacities that are asked for a kind are the same, and there is one. -/
theorem capacity_of_forall_eq (hn : n ∈ s.capacitiesOf kind) (hall : ∀ m ∈ s.capacitiesOf kind, m = n) :
    (ReferenceCache.ofSettings s).capacity kind = n := by
  have hlast := List.getLast?_eq_some_getLast (List.ne_nil_of_mem hn)
  rw [capacity_ofSettings, hlast, Option.getD_some]
  exact hall _ (List.getLast_mem _)

end CacheSettings

open ReferenceKind (parse?)

/-- In a valid configuration every capacity is asked for one kind, the one that its name stands for. A kind for which
none is asked has the default capacity, and any other one has the last that is asked for it. So all of them take effect
exactly if no two different ones are asked for the same kind. -/
theorem Config.IsValid.capacities_take_effect_iff {c : Config} (h : c.IsValid) :
    (∀ entry ∈ c.cache.capacities, ∃ kind, parse? entry.1 = some kind ∧ ∀ kind', kind'.IsNamedBy entry.1 ↔ kind' = kind) ∧
    (∀ kind, (∀ entry ∈ c.cache.capacities, parse? entry.1 ≠ some kind) →
      (ReferenceCache.ofSettings c.cache).capacity kind = c.cache.defaultCapacity) ∧
    (∀ kind before name n after, c.cache.capacities = before ++ (name, n) :: after → parse? name = some kind →
      (∀ entry ∈ after, parse? entry.1 ≠ some kind) → (ReferenceCache.ofSettings c.cache).capacity kind = n) ∧
    ((∀ entry ∈ c.cache.capacities, ∀ kind, parse? entry.1 = some kind →
        (ReferenceCache.ofSettings c.cache).capacity kind = entry.2) ↔
      ∀ entry ∈ c.cache.capacities, ∀ entry' ∈ c.cache.capacities,
        parse? entry.1 = parse? entry'.1 → entry.2 = entry'.2) := by
  have hparsed {entry : String × Nat} (hentry : entry ∈ c.cache.capacities) : ∃ kind, parse? entry.1 = some kind :=
    Option.isSome_iff_exists.mp (c.cache.isSome_parse?_of_problem? (Config.isValid_iff.mp h).2.2.1 hentry)
  refine ⟨fun entry hentry => ?_, fun kind => CacheSettings.capacity_of_forall_ne,
    fun kind before name n after => CacheSettings.capacity_of_last, fun heffect => ?_, fun hsame => ?_⟩
  · obtain ⟨kind, hkind⟩ := hparsed hentry
    have hnamed := ReferenceKind.parse?_eq_some_iff.mp hkind
    exact ⟨kind, hkind, fun kind' => ⟨fun h' => h'.eq hnamed, fun h' => h' ▸ hnamed⟩⟩
  · intro entry hentry entry' hentry' hnames
    obtain ⟨kind, hkind⟩ := hparsed hentry
    exact (heffect entry hentry kind hkind).symm.trans (heffect entry' hentry' kind (hnames.symm.trans hkind))
  · intro entry hentry kind hkind
    refine CacheSettings.capacity_of_forall_eq (CacheSettings.mem_capacitiesOf.mpr ⟨entry.1, hentry, hkind⟩) fun m hm => ?_
    obtain ⟨name, hname, hkind'⟩ := CacheSettings.mem_capacitiesOf.mp hm
    exact hsame (name, m) hname entry hentry (hkind'.trans hkind.symm)

namespace SizedPartitions

def config (capacities : Entries Nat) : Config where
  application := { workDir := "/tmp" }
  cache := { capacities }

theorem kinds_have_their_capacities : (config [("USERS", 5), ("location", 7)]).IsValid ∧
    (ReferenceCache.ofSettings (config [("USERS", 5), ("location", 7)]).cache).capacity .user = 5 ∧
    (ReferenceCache.ofSettings (config [("USERS", 5), ("location", 7)]).cache).capacity .location = 7 ∧
    (ReferenceCache.ofSettings (config [("USERS", 5), ("location", 7)]).cache).capacity .loanType = 1000 := by
  have hvalid : (config [("USERS", 5), ("location", 7)]).IsValid := by decide
  obtain ⟨-, hdefault, -, heffect⟩ := hvalid.capacities_take_effect_iff
  have hall := heffect.mpr (by decide)
  exact ⟨hvalid, hall ("USERS", 5) (by decide) .user (by decide), hall ("location", 7) (by decide) .location (by decide),
    hdefault .loanType (by decide)⟩

/-- Users are asked for twice, and the first capacity is without effect. -/
theorem first_capacity_is_lost : (config [("USERS", 1), ("users", 5)]).IsValid ∧
    ("USERS", 1) ∈ (config [("USERS", 1), ("users", 5)]).cache.capacities ∧ parse? "USERS" = some .user ∧
    (ReferenceCache.ofSettings (config [("USERS", 1), ("users", 5)]).cache).capacity .user = 5 := by
  decide

end SizedPartitions
end BatchExport
