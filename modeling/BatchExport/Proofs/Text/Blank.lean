import BatchExport.Text.Blank
import Mathlib.Data.List.TakeWhile

/-! Texts without white space around them. Main statement: these are the ones that trimming leaves alone, and all that it
answers. -/
namespace BatchExport.Text

variable {cs : List Char} {s : String}

/-- No white space at either end. -/
structure IsTrim (cs : List Char) : Prop where
  first : ∀ c ∈ cs.head?, isBlankChar c = false
  last : ∀ c ∈ cs.getLast?, isBlankChar c = false

theorem trimLeft_first (cs : List Char) : ∀ c ∈ (trimLeft cs).head?, isBlankChar c = false := by
  intro c hc
  have hfirst := List.head?_dropWhile_not isBlankChar cs
  rw [trimLeft] at hc
  rwa [hc] at hfirst

theorem trimLeft_eq_self (h : ∀ c ∈ cs.head?, isBlankChar c = false) : trimLeft cs = cs := by
  cases cs with
  | nil => rfl
  | cons c cs => rw [trimLeft, List.dropWhile_cons_of_neg (by simp [h c rfl])]

theorem trimRight_begins (cs : List Char) : trimRight cs <+: cs := by
  have hsuffix : trimLeft cs.reverse <:+ cs.reverse := List.dropWhile_suffix _
  simpa [trimRight] using List.reverse_prefix.mpr hsuffix

theorem trimRight_eq_self (h : ∀ c ∈ cs.getLast?, isBlankChar c = false) : trimRight cs = cs := by
  rw [trimRight, trimLeft_eq_self (by simpa using h), List.reverse_reverse]

theorem trim_sublist (s : String) : (trim s).toList.Sublist s.toList := by
  rw [trim, String.toList_ofList]
  exact (trimRight_begins _).sublist.trans (List.dropWhile_sublist _)

theorem isTrim_trim (s : String) : IsTrim (trim s).toList := by
  rw [trim, String.toList_ofList]
  constructor
  · intro c hc
    obtain ⟨rest, hrest⟩ := List.head?_eq_some_iff.mp hc
    obtain ⟨more, hmore⟩ := trimRight_begins (trimLeft s.toList)
    rw [hrest] at hmore
    exact trimLeft_first s.toList c (by rw [← hmore]; rfl)
  · intro c hc
    rw [trimRight, List.getLast?_reverse] at hc
    exact trimLeft_first _ c hc

theorem trim_eq_self_iff : trim s = s ↔ IsTrim s.toList := by
  constructor
  · intro h
    rw [← h]
    exact isTrim_trim s
  · intro h
    rw [trim, trimLeft_eq_self h.first, trimRight_eq_self h.last, String.ofList_toList]

theorem trim_eq_empty_iff : trim s = "" ↔ isBlank s = true := by
  rw [← String.toList_eq_nil_iff, trim, String.toList_ofList, trimRight, List.reverse_eq_nil_iff, isBlank, List.all_eq_true]
  constructor
  · intro h
    rw [trimLeft, List.dropWhile_eq_nil_iff] at h
    -- What trimming on the left leaves begins with a character that is no white space, if it leaves anything.
    cases hleft : trimLeft s.toList with
    | nil => exact List.dropWhile_eq_nil_iff.mp hleft
    | cons c rest =>
      have hfirst := trimLeft_first s.toList c (by rw [hleft]; rfl)
      have hblank := h c (List.mem_reverse.mpr (hleft ▸ List.mem_cons_self))
      rw [hfirst] at hblank
      cases hblank
  · intro h
    rw [trimLeft, trimLeft, List.dropWhile_eq_nil_iff.mpr h]
    rfl

theorem isTrim_of_solid (h : ∀ c ∈ cs, isBlankChar c = false) : IsTrim cs where
  first c hc := h c (List.mem_of_head? hc)
  last c hc := h c (List.mem_of_getLast? hc)

end BatchExport.Text
