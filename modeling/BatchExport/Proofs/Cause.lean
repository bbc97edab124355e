import BatchExport.Cause
import Mathlib.Data.List.Chain
import Mathlib.Data.List.Nodup
import Mathlib.Data.List.Perm.Subperm
import Mathlib.Logic.Relation

/-! Where the search for the deepest cause ends. Main statement: at the last error of the longest walk along causes that
visits no error twice, however the causes run. -/
namespace BatchExport

namespace CauseGraph

def Causes (g : CauseGraph) (i j : Nat) : Prop := g.cause? i = some j

/-- Each error is followed by its cause, and none comes twice. -/
structure IsWalk (g : CauseGraph) (start : Nat) (walk : List Nat) : Prop where
  first : walk.head? = some start
  chain : walk.IsChain g.Causes
  nodup : walk.Nodup

/-- The walk cannot go on: its last error has no cause, or one that is on the walk. -/
def IsComplete (g : CauseGraph) (walk : List Nat) : Prop :=
  ∀ last, walk.getLast? = some last → ∀ cause, g.cause? last = some cause → cause ∈ walk

/-- No error to which causes lead from here is among its own causes. -/
def IsAcyclicFrom (g : CauseGraph) (start : Nat) : Prop :=
  ∀ i, Relation.ReflTransGen g.Causes start i → ¬ Relation.TransGen g.Causes i i

/-- The search round by round, with nothing that bounds the rounds. -/
inductive Searches (g : CauseGraph) : List Nat → Nat → Nat → Prop
  | ends {visited i} (uncaused : g.cause? i = none) : Searches g visited i i
  | repeats {visited i} (cause : Nat) (caused : g.cause? i = some cause) (seen : cause ∈ visited) : Searches g visited i i
  | goesOn {visited i r} (cause : Nat) (caused : g.cause? i = some cause) (unseen : cause ∉ visited)
      (rest : Searches g (cause :: visited) cause r) : Searches g visited i r

/-- What has been visited is a walk, the newest error first. -/
structure Visits (g : CauseGraph) (start : Nat) (visited : List Nat) (i : Nat) : Prop where
  walk : g.IsWalk start visited.reverse
  newest : visited.head? = some i

variable {g : CauseGraph} {start i j r : Nat} {walk other visited : List Nat}

theorem lt_length_of_cause (h : g.cause? i = some j) : i < g.length := by
  rw [cause?, Option.bind_eq_some_iff] at h
  obtain ⟨node, hnode, -⟩ := h
  exact (List.getElem?_eq_some_iff.mp hnode).1

theorem Searches.unique {r' : Nat} (h : g.Searches visited i r) (h' : g.Searches visited i r') : r = r' := by
  induction h with
  | ends uncaused =>
    cases h' with
    | goesOn cause caused => cases uncaused.symm.trans caused
    | _ => rfl
  | repeats cause caused seen =>
    cases h' with
    | goesOn cause' caused' unseen =>
      cases caused.symm.trans caused'
      exact absurd seen unseen
    | _ => rfl
  | goesOn cause caused unseen rest ih =>
    cases h' with
    | ends uncaused => cases uncaused.symm.trans caused
    | repeats cause' caused' seen =>
      cases caused.symm.trans caused'
      exact absurd seen unseen
    | goesOn cause' caused' unseen' rest' =>
      cases caused.symm.trans caused'
      exact ih rest'

theorem visits_start (g : CauseGraph) (start : Nat) : g.Visits start [start] start :=
  ⟨⟨rfl, .singleton start, List.nodup_singleton start⟩, rfl⟩

theorem Visits.goOn (h : g.Visits start visited i) (hcause : g.cause? i = some j) (hunseen : j ∉ visited) :
    g.Visits start (j :: visited) j := by
  obtain ⟨before, rfl⟩ := List.head?_eq_some_iff.mp h.newest
  refine ⟨⟨?_, ?_, ?_⟩, rfl⟩
  · rw [List.reverse_cons, List.head?_append, h.walk.first, Option.some_or]
  · rw [List.reverse_cons]
    refine List.isChain_append.mpr ⟨h.walk.chain, .singleton j, fun last hlast next hnext => ?_⟩
    obtain rfl : i = last := by simpa using hlast
    obtain rfl : j = next := by simpa using hnext
    exact hcause
  · exact List.nodup_reverse.mpr (List.nodup_cons.mpr ⟨hunseen, List.nodup_reverse.mp h.walk.nodup⟩)

/-- All errors of a walk but the last one have a cause, so they are in the graph. -/
theorem IsWalk.length_le (h : g.IsWalk start walk) : walk.length ≤ g.length + 1 := by
  obtain rfl | ⟨before, last, rfl⟩ := walk.eq_nil_or_concat
  · exact Nat.zero_le _
  · rw [List.concat_eq_append] at h
    have hbefore : before ⊆ List.range g.length := by
      intro i hi
      obtain ⟨l, l', rfl⟩ := List.append_of_mem hi
      have hchain := h.chain
      rw [List.append_assoc, List.cons_append] at hchain
      have hfrom := (List.isChain_append.mp hchain).2.1
      have hcause : ∃ j, g.cause? i = some j := by
        cases l' with
        | nil => exact ⟨last, (List.isChain_cons_cons.mp hfrom).1⟩
        | cons j l' => exact ⟨j, (List.isChain_cons_cons.mp hfrom).1⟩
      obtain ⟨j, hj⟩ := hcause
      exact List.mem_range.mpr (lt_length_of_cause hj)
    have hnodup : before.Nodup := (List.nodup_append.mp h.nodup).1
    have hlength := (List.subperm_of_subset hnodup hbefore).length_le
    rw [List.length_range] at hlength
    simpa using hlength

/-- The fuel outlasts the errors that have not been visited. -/
theorem searches_descend {fuel : Nat} (h : g.Visits start visited i) (hfuel : g.length + 2 ≤ fuel + visited.length) :
    g.Searches visited i (g.descend fuel visited i) := by
  induction fuel generalizing visited i with
  | zero =>
    have hlength := h.walk.length_le
    rw [List.length_reverse] at hlength
    omega
  | succ fuel ih =>
    unfold descend
    split
    · exact .ends ‹_›
    · rename_i j hcause
      split
      · exact .repeats j hcause ‹_›
      · rename_i hunseen
        refine .goesOn j hcause hunseen (ih (h.goOn hcause hunseen) ?_)
        rw [List.length_cons]
        omega

theorem searches_rootCause (g : CauseGraph) (start : Nat) : g.Searches [start] start (g.rootCause start) :=
  searches_descend (visits_start g start) (Nat.le_refl _)

/-- The search stops where a walk is complete. -/
theorem Searches.completes (h : g.Searches visited i r) (hvisits : g.Visits start visited i) :
    ∃ walk, g.IsWalk start walk ∧ g.IsComplete walk ∧ walk.getLast? = some r := by
  induction h with
  | ends uncaused =>
    have hlast := List.getLast?_reverse.trans hvisits.newest
    refine ⟨_, hvisits.walk, fun last hlast' cause hcause => ?_, hlast⟩
    cases hlast.symm.trans hlast'
    cases uncaused.symm.trans hcause
  | repeats cause caused seen =>
    have hlast := List.getLast?_reverse.trans hvisits.newest
    refine ⟨_, hvisits.walk, fun last hlast' cause' hcause => ?_, hlast⟩
    cases hlast.symm.trans hlast'
    cases caused.symm.trans hcause
    exact List.mem_reverse.mpr seen
  | goesOn cause caused unseen rest ih => exact ih (hvisits.goOn caused unseen)

/-- An error has one cause at most, so of two walks one begins as the other. -/
theorem prefix_total {l l' : List Nat} (hl : l.IsChain g.Causes) (hl' : l'.IsChain g.Causes)
    (hfirst : l.head? = l'.head?) : l <+: l' ∨ l' <+: l := by
  induction l generalizing l' with
  | nil => exact .inl List.nil_prefix
  | cons i l ih =>
    obtain ⟨l', rfl⟩ := List.head?_eq_some_iff.mp hfirst.symm
    cases l with
    | nil => exact .inl (by simp)
    | cons j l =>
      cases l' with
      | nil => exact .inr (by simp)
      | cons j' l' =>
        obtain ⟨hj, hl⟩ := List.isChain_cons_cons.mp hl
        obtain ⟨hj', hl'⟩ := List.isChain_cons_cons.mp hl'
        cases Option.some.inj (hj.symm.trans hj')
        refine (ih hl hl' rfl).imp ?_ ?_ <;> exact (List.prefix_cons_inj i).mpr

/-- A walk that cannot go on is the longest one: every other is how it begins. -/
theorem IsWalk.prefix_of_complete (h : g.IsWalk start walk) (hcomplete : g.IsComplete walk)
    (hother : g.IsWalk start other) : other <+: walk := by
  refine (prefix_total hother.chain h.chain (hother.first.trans h.first.symm)).elim id ?_
  rintro ⟨more, rfl⟩
  cases more with
  | nil => exact (List.append_nil walk).symm ▸ List.prefix_rfl
  | cons j more =>
    -- Such an error would be the cause of the last one, and it would come twice.
    obtain ⟨last, hlast⟩ : ∃ last, walk.getLast? = some last := by
      cases hwalk : walk.getLast? with
      | some last => exact ⟨last, rfl⟩
      | none =>
        rw [List.getLast?_eq_none_iff] at hwalk
        subst hwalk
        cases h.first
    have hcause := (List.isChain_append.mp hother.chain).2.2 last hlast j rfl
    have htwice := (List.nodup_append.mp hother.nodup).2.2 j (hcomplete last hlast j hcause) j List.mem_cons_self
    exact absurd rfl htwice

/-- Each error of a walk leads to all that come after it. -/
theorem leads_of_chain {l : List Nat} (h : (i :: l).IsChain g.Causes) (hr : (i :: l).getLast? = some r) :
    Relation.ReflTransGen g.Causes i r := by
  induction l generalizing i with
  | nil =>
    obtain rfl : i = r := by simpa using hr
    exact .refl
  | cons j l ih =>
    obtain ⟨hj, hl⟩ := List.isChain_cons_cons.mp h
    rw [List.getLast?_cons_cons] at hr
    exact .head hj (ih hl hr)

theorem IsWalk.leads (h : g.IsWalk start walk) (hr : walk.getLast? = some r) (hj : j ∈ walk) :
    Relation.ReflTransGen g.Causes j r := by
  obtain ⟨before, after, rfl⟩ := List.append_of_mem hj
  refine leads_of_chain (List.isChain_append.mp h.chain).2.1 ?_
  rwa [List.getLast?_append_of_ne_nil _ (List.cons_ne_nil _ _)] at hr

/-- What a circle leads to is on a circle. -/
theorem circles_on (hcircle : Relation.TransGen g.Causes i i) (hlead : Relation.ReflTransGen g.Causes i j) :
    Relation.TransGen g.Causes j j := by
  induction hlead with
  | refl => exact hcircle
  | tail _ hnext ih =>
    obtain ⟨next, hcause, hback⟩ := Relation.TransGen.head'_iff.mp ih
    cases Option.some.inj (hcause.symm.trans hnext)
    exact .tail' hback hnext

/-- An error without a cause is where all causes lead. -/
theorem leads_to_end (hend : g.cause? r = none) (hr : Relation.ReflTransGen g.Causes start r)
    (hi : Relation.ReflTransGen g.Causes start i) : Relation.ReflTransGen g.Causes i r := by
  induction hi with
  | refl => exact hr
  | tail _ hnext ih =>
    obtain rfl | ⟨next, hcause, hrest⟩ := Relation.ReflTransGen.cases_head ih
    · cases hend.symm.trans hnext
    · cases Option.some.inj (hcause.symm.trans hnext)
      exact hrest

theorem IsWalk.acyclic_iff (h : g.IsWalk start walk) (hcomplete : g.IsComplete walk) (hr : walk.getLast? = some r) :
    g.IsAcyclicFrom start ↔ g.cause? r = none := by
  have hstart : start ∈ walk := List.mem_of_head? h.first
  constructor
  · intro hacyclic
    cases hcause : g.cause? r with
    | none => rfl
    | some j =>
      have hback := h.leads hr (hcomplete r hr j hcause)
      exact absurd (.head' hcause hback) (hacyclic r (h.leads hr hstart))
  · intro hend i hi hcircle
    have hlast := circles_on hcircle (leads_to_end hend (h.leads hr hstart) hi)
    obtain ⟨next, hcause, -⟩ := Relation.TransGen.head'_iff.mp hlast
    cases hend.symm.trans hcause

/-- Wherever a walk cannot go on, the search ends at its last error. -/
theorem rootCause_of_complete (h : g.IsWalk start walk) (hcomplete : g.IsComplete walk) :
    walk.getLast? = some (g.rootCause start) := by
  obtain ⟨other, hother, hends, hlast⟩ := (searches_rootCause g start).completes (visits_start g start)
  have hsame : walk = other := (hother.prefix_of_complete hends h).eq_of_length_le
    (h.prefix_of_complete hcomplete hother).length_le
  rw [hsame, hlast]

/-- The search ends, at the last error of the longest walk along causes that visits none twice. That error has no cause
if the causes do not run in a circle, and otherwise one that is on the walk. So wherever a walk cannot go on, its last
error is the one that is found. -/
theorem rootCause_ends_longest_walk (g : CauseGraph) (start : Nat) :
    (∀ r, g.Searches [start] start r ↔ r = g.rootCause start) ∧
    (∃ walk, g.IsWalk start walk ∧ (∀ other, g.IsWalk start other → other <+: walk) ∧
      walk.getLast? = some (g.rootCause start) ∧
      (g.IsAcyclicFrom start → g.cause? (g.rootCause start) = none) ∧
      (¬ g.IsAcyclicFrom start → ∃ cause ∈ walk, g.cause? (g.rootCause start) = some cause)) ∧
    (∀ walk, g.IsWalk start walk → g.IsComplete walk → walk.getLast? = some (g.rootCause start)) := by
  have hsearch := searches_rootCause g start
  obtain ⟨walk, hwalk, hcomplete, hlast⟩ := hsearch.completes (visits_start g start)
  have hacyclic := hwalk.acyclic_iff hcomplete hlast
  refine ⟨fun r => ⟨fun h => h.unique hsearch, fun h => h ▸ hsearch⟩, ⟨walk, hwalk, ?_, hlast, hacyclic.mp, ?_⟩, ?_⟩
  · exact fun other hother => hwalk.prefix_of_complete hcomplete hother
  · intro hcyclic
    obtain ⟨cause, hcause⟩ := Option.ne_none_iff_exists'.mp (mt hacyclic.mpr hcyclic)
    exact ⟨cause, hcomplete _ hlast cause hcause, hcause⟩
  · exact fun other hother hends => rootCause_of_complete hother hends

/-- The third error has the second one as its cause. -/
example : (ofChain ["a", "b", "c"] (some 1)).rootCause 0 = 2 := by decide

section Chain

variable {messages : List String} {back : Option Nat}

theorem message_ofChain (hi : i < messages.length) :
    (ofChain messages back).message i = messages[i] := by
  rw [message, ofChain, List.getElem?_mapIdx, List.getElem?_eq_getElem hi]
  rfl

theorem cause?_ofChain (hi : i < messages.length) :
    (ofChain messages back).cause? i = if i + 1 < messages.length then some (i + 1) else back := by
  rw [cause?, ofChain, List.getElem?_mapIdx, List.getElem?_eq_getElem hi]
  rfl

/-- Of errors in a row the search finds the last one, whichever of them that one names as its cause, if any. -/
theorem rootCause_ofChain (first : String) (more : List String) (back : Option (Fin (more.length + 1))) :
    (ofChain (first :: more) (back.map (·.val))).rootCause 0 = more.length := by
  have hwalk : (ofChain (first :: more) (back.map (·.val))).IsWalk 0 (List.range (more.length + 1)) := by
    refine ⟨by rw [List.head?_range, if_neg (Nat.succ_ne_zero _)], ?_, List.nodup_range⟩
    refine List.isChain_iff_getElem.mpr fun i hi => ?_
    rw [List.length_range] at hi
    rw [List.getElem_range, List.getElem_range, Causes, cause?_ofChain (by simpa using Nat.lt_of_succ_lt hi),
      if_pos (by simpa using hi)]
  have hcomplete : (ofChain (first :: more) (back.map (·.val))).IsComplete (List.range (more.length + 1)) := by
    intro last hlast cause hcause
    rw [List.getLast?_range, if_neg (Nat.succ_ne_zero _)] at hlast
    obtain rfl : more.length = last := Option.some.inj hlast
    rw [cause?_ofChain (by simp), if_neg (by simp), Option.map_eq_some_iff] at hcause
    obtain ⟨k, -, rfl⟩ := hcause
    exact List.mem_range.mpr k.isLt
  have hlast := rootCause_of_complete hwalk hcomplete
  rw [List.getLast?_range, if_neg (Nat.succ_ne_zero _)] at hlast
  exact (Option.some.inj hlast).symm

end Chain
end CauseGraph

/-- The deepest cause of a failure is what its chain ends in. -/
theorem RecordedFailure.rootMessage_ofFailure (f : Failure) : f.chain.getLast? = some (ofFailure f).rootMessage := by
  obtain ⟨first, more, hchain⟩ : ∃ first more, f.chain = first :: more := by
    cases f <;> exact ⟨_, _, rfl⟩
  have hroot : (CauseGraph.ofChain (first :: more) none).rootCause 0 = more.length :=
    CauseGraph.rootCause_ofChain first more none
  have hlast : more.length < (first :: more).length := Nat.lt_succ_self _
  rw [rootMessage, ofFailure, hchain, hroot, CauseGraph.message_ofChain hlast, List.getLast?_eq_getElem?]
  exact List.getElem?_eq_getElem hlast

end BatchExport
