import BatchExport.Text.Pieces

/-! Texts cut into pieces, and parts of texts replaced. Main statements: what is put together with a separator is cut
into the pieces of its parts, a text is put together from its own pieces, and every occurrence is replaced. -/
namespace BatchExport

namespace Text

variable {sep : Char}

theorem splitAt_ne_nil (sep : Char) (cs : List Char) : splitAt sep cs ≠ [] := by
  cases cs with
  | nil => simp [splitAt]
  | cons c cs =>
    rw [splitAt]
    split
    · simp
    · split <;> simp

theorem splitAt_of_not_mem {cs : List Char} (h : sep ∉ cs) : splitAt sep cs = [cs] := by
  induction cs with
  | nil => rfl
  | cons c cs ih =>
    have hc : c ≠ sep := fun e => h (by simp [e])
    rw [splitAt, if_neg hc, ih fun hm => h (List.mem_cons_of_mem _ hm)]

/-- Without a separator in it, what is appended belongs to the last piece. -/
theorem splitAt_append {b : List Char} (h : sep ∉ b) (a : List Char) :
    splitAt sep (a ++ b) = (splitAt sep a).dropLast ++ [(splitAt sep a).getLastD [] ++ b] := by
  induction a with
  | nil => simpa [splitAt] using splitAt_of_not_mem h
  | cons c a ih =>
    rw [List.cons_append, splitAt, splitAt, ih]
    obtain ⟨piece, more, hpieces⟩ := List.exists_cons_of_ne_nil (splitAt_ne_nil sep a)
    rw [hpieces]
    cases more <;> split <;> simp

/-- Without a separator in it, what comes before belongs to the first piece. -/
theorem splitAt_of_lead {a b first : List Char} {more : List (List Char)} (h : sep ∉ a)
    (hb : splitAt sep b = first :: more) : splitAt sep (a ++ b) = (a ++ first) :: more := by
  induction a with
  | nil => exact hb
  | cons c a ih =>
    have hc : c ≠ sep := fun e => h (by simp [e])
    rw [List.cons_append, splitAt, if_neg hc, ih fun hm => h (List.mem_cons_of_mem _ hm)]
    rfl

/-- The last piece is empty where nothing comes after the last separator. -/
theorem getLast?_of_splitAt {cs : List Char} (h : (splitAt sep cs).getLast? = some []) :
    cs = [] ∨ cs.getLast? = some sep := by
  rcases List.eq_nil_or_concat cs with rfl | ⟨before, c, rfl⟩
  · exact .inl rfl
  · by_cases hc : c = sep
    · exact .inr (by simp [hc])
    · rw [List.concat_eq_append, splitAt_append (by simpa using Ne.symm hc), List.getLast?_concat] at h
      simp at h

theorem not_mem_of_mem_splitAt {cs piece : List Char} (h : piece ∈ splitAt sep cs) : sep ∉ piece := by
  induction cs generalizing piece with
  | nil =>
    obtain rfl : piece = [] := by simpa [splitAt] using h
    simp
  | cons c cs ih =>
    obtain ⟨first, more, hpieces⟩ := List.exists_cons_of_ne_nil (splitAt_ne_nil sep cs)
    rw [hpieces] at ih
    rw [splitAt, hpieces] at h
    split at h
    · rcases List.mem_cons.mp h with rfl | h
      · simp
      · exact ih h
    · rcases List.mem_cons.mp h with rfl | h
      · have hc : sep ≠ c := Ne.symm ‹¬c = sep›
        simpa [hc] using ih List.mem_cons_self
      · exact ih (List.mem_cons_of_mem _ h)

theorem subset_of_mem_splitAt {cs piece : List Char} (h : piece ∈ splitAt sep cs) : piece ⊆ cs := by
  induction cs generalizing piece with
  | nil =>
    obtain rfl : piece = [] := by simpa [splitAt] using h
    exact List.Subset.refl []
  | cons c cs ih =>
    obtain ⟨first, more, hpieces⟩ := List.exists_cons_of_ne_nil (splitAt_ne_nil sep cs)
    rw [hpieces] at ih
    rw [splitAt, hpieces] at h
    split at h
    · rcases List.mem_cons.mp h with rfl | h
      · exact List.nil_subset _
      · exact List.subset_cons_of_subset c (ih h)
    · rcases List.mem_cons.mp h with rfl | h
      · exact List.cons_subset_cons c (ih List.mem_cons_self)
      · exact List.subset_cons_of_subset c (ih (List.mem_cons_of_mem _ h))

theorem splitAt_separator (a b : List Char) : splitAt sep (a ++ sep :: b) = splitAt sep a ++ splitAt sep b := by
  induction a with
  | nil => simp [splitAt]
  | cons c a ih =>
    rw [List.cons_append, splitAt, splitAt, ih]
    obtain ⟨piece, more, hpieces⟩ := List.exists_cons_of_ne_nil (splitAt_ne_nil sep a)
    rw [hpieces]
    split <;> simp

/-- What is put together is cut where its parts are, and between them. -/
theorem splitAt_intercalate {parts : List (List Char)} (hne : parts ≠ []) :
    splitAt sep (List.intercalate [sep] parts) = parts.flatMap (splitAt sep) := by
  induction parts with
  | nil => exact absurd rfl hne
  | cons part rest ih =>
    cases rest with
    | nil => simp
    | cons next rest =>
      rw [List.intercalate_cons_cons, List.append_assoc, List.singleton_append, splitAt_separator, ih (by simp)]
      rfl

theorem flatMap_splitAt {parts : List (List Char)} (h : ∀ part ∈ parts, sep ∉ part) :
    parts.flatMap (splitAt sep) = parts := by
  induction parts with
  | nil => rfl
  | cons part rest ih =>
    have hpart : sep ∉ part := h part List.mem_cons_self
    rw [List.flatMap_cons, splitAt_of_not_mem hpart, ih fun other hother => h other (List.mem_cons_of_mem _ hother)]
    rfl

/-- A text is made of its pieces. -/
theorem intercalate_splitAt (cs : List Char) : List.intercalate [sep] (splitAt sep cs) = cs := by
  induction cs with
  | nil => rfl
  | cons c cs ih =>
    obtain ⟨piece, more, hpieces⟩ := List.exists_cons_of_ne_nil (splitAt_ne_nil sep cs)
    rw [hpieces] at ih
    rw [splitAt, hpieces]
    split
    · subst c
      rw [List.intercalate_cons_cons, ih]
      rfl
    · cases more with
      | nil =>
        rw [List.intercalate_singleton] at ih ⊢
        rw [ih]
      | cons next more =>
        rw [List.intercalate_cons_cons] at ih ⊢
        rw [List.cons_append, List.cons_append, ih]

/-- Every occurrence has been replaced, from the left and without overlap. -/
inductive Replaced (old new : List Char) : List Char → List Char → Prop
  | done : Replaced old new [] []
  | occurrence {rest out : List Char} : Replaced old new rest out → Replaced old new (old ++ rest) (new ++ out)
  | char {c : Char} {rest out : List Char} : ¬ old <+: c :: rest → Replaced old new rest out →
      Replaced old new (c :: rest) (c :: out)

variable {old new cs out lead : List Char}

private theorem startsWith_iff (hold : old ≠ []) : (!old.isEmpty && startsWith old cs) = true ↔ old <+: cs := by
  rw [startsWith, List.isEmpty_eq_false_iff.mpr hold, Bool.not_false, Bool.true_and, List.isPrefixOf_iff_prefix]

private theorem replaceAll_go (hold : old ≠ []) (new : List Char) (n : Nat) (cs : List Char) (hn : cs.length ≤ n) :
    Replaced old new cs (replaceAll.go old new n cs) := by
  induction n generalizing cs with
  | zero =>
    obtain rfl := List.length_eq_zero_iff.mp (Nat.le_zero.mp hn)
    exact .done
  | succ n ih =>
    cases cs with
    | nil => exact .done
    | cons c rest =>
      rw [replaceAll.go]
      split
      · obtain ⟨more, hmore⟩ := (startsWith_iff hold).mp ‹_›
        have hlength := List.length_pos_iff.mpr hold
        have hlengths := congrArg List.length hmore
        rw [List.length_append] at hlengths
        rw [← hmore, List.drop_left]
        exact .occurrence (ih more (by omega))
      · exact .char (fun h => ‹¬_› ((startsWith_iff hold).mpr h)) (ih rest (Nat.le_of_succ_le_succ hn))

theorem replaceAll_replaced (hold : old ≠ []) (new cs : List Char) : Replaced old new cs (replaceAll old new cs) :=
  replaceAll_go hold new cs.length cs (Nat.le_refl _)

theorem Replaced.eq_go (h : Replaced old new cs out) (hold : old ≠ []) (n : Nat) (hn : cs.length ≤ n) :
    out = replaceAll.go old new n cs := by
  induction h generalizing n with
  | done => cases n <;> rfl
  | @occurrence rest out _ ih =>
    obtain ⟨c, more, rfl⟩ := List.exists_cons_of_ne_nil hold
    cases n with
    | zero => cases hn
    | succ n =>
      have hrest : rest.length ≤ n := by
        rw [List.length_append, List.length_cons] at hn
        omega
      rw [List.cons_append, replaceAll.go, ← List.cons_append,
        if_pos ((startsWith_iff hold).mpr (List.prefix_append _ _)), List.drop_left, ih n hrest]
  | char hnot _ ih =>
    cases n with
    | zero => cases hn
    | succ n =>
      rw [replaceAll.go, if_neg fun h => hnot ((startsWith_iff hold).mp h), ih n (Nat.le_of_succ_le_succ hn)]

theorem Replaced.eq (h : Replaced old new cs out) (hold : old ≠ []) : out = replaceAll old new cs :=
  h.eq_go hold cs.length (Nat.le_refl _)

/-- Where no occurrence begins, nothing changes. -/
theorem Replaced.append_left (h : Replaced old new cs out)
    (hnone : ∀ before after, lead ++ cs = before ++ old ++ after → lead.length ≤ before.length) :
    Replaced old new (lead ++ cs) (lead ++ out) := by
  induction lead with
  | nil => exact h
  | cons c lead ih =>
    refine .char ?_ (ih fun before after heq => ?_)
    · rintro ⟨after, heq⟩
      exact absurd (hnone [] after heq.symm) (by simp)
    · have hlength := hnone (c :: before) after (congrArg (c :: ·) heq)
      simpa using hlength

end Text
end BatchExport
