import BatchExport.Config.Substitution

/-! Placeholders in a text. Main statements: every text reads as characters and placeholders, these placeholders are all
that occur in it, and their names are found from left to right. -/
namespace BatchExport.Substitution

variable {name other cs w rest : List Char}

/-- A capital letter or an underscore, and then more of them and digits. -/
def IsVariableName (name : List Char) : Prop :=
  ∃ first more, name = first :: more ∧ isNameStart first = true ∧ ∀ c ∈ more, isNameChar c = true

theorem IsVariableName.chars (h : IsVariableName name) : ∀ c ∈ name, isNameChar c = true := by
  obtain ⟨first, more, rfl, hfirst, hmore⟩ := h
  refine List.forall_mem_cons.mpr ⟨?_, hmore⟩
  rw [isNameChar, hfirst, Bool.true_or]

theorem IsVariableName.dollar_not_mem (h : IsVariableName name) : '$' ∉ '{' :: name ++ ['}'] := by
  have hname : '$' ∉ name := fun hmem => absurd (h.chars '$' hmem) (by decide)
  simpa using hname

theorem placeholder_ne_nil (name : List Char) : placeholder name ≠ [] := List.cons_ne_nil _ _

theorem placeholder_append (name rest : List Char) :
    placeholder name ++ rest = '$' :: ('{' :: name ++ ['}'] ++ rest) := rfl

theorem placeholder?_eq_some : placeholder? cs = some name ↔ IsVariableName name ∧ placeholder name <+: cs := by
  constructor
  · intro h
    unfold placeholder? at h
    split at h
    · rename_i rest
      dsimp only at h
      split at h
      · rename_i first more after hname hafter
        split at h
        · obtain rfl := Option.some.inj h
          have hall : ∀ c ∈ first :: more, isNameChar c = true := by
            rw [← hname]
            exact fun c hc => List.all_eq_true.mp List.all_takeWhile c hc
          refine ⟨⟨first, more, hname, ‹_›, fun c hc => hall c (List.mem_cons_of_mem _ hc)⟩, after, ?_⟩
          have hrest := List.prefix_iff_eq_append.mp (List.takeWhile_prefix isNameChar (l := rest))
          rw [hafter] at hrest
          simp only [placeholder, List.cons_append, List.append_assoc, List.nil_append, hrest]
        · cases h
      · cases h
    · cases h
  · rintro ⟨hname, after, rfl⟩
    have hend : ('}' :: after).takeWhile isNameChar = [] := List.takeWhile_cons_of_neg (by decide)
    have htake : (name ++ '}' :: after).takeWhile isNameChar = name := by
      rw [List.takeWhile_append_of_pos hname.chars, hend, List.append_nil]
    obtain ⟨first, more, rfl, hfirst, -⟩ := hname
    have htext : placeholder (first :: more) ++ after = '$' :: '{' :: (first :: more ++ '}' :: after) := by
      simp [placeholder]
    rw [htext, placeholder?]
    simp only [htake, List.drop_left, hfirst, if_true]

/-- A placeholder begins with its dollar sign. -/
theorem placeholder?_of_ne {c : Char} (hc : c ≠ '$') (cs : List Char) : placeholder? (c :: cs) = none := by
  rw [Option.eq_none_iff_forall_ne_some]
  intro name h
  obtain ⟨-, after, heq⟩ := placeholder?_eq_some.mp h
  exact hc (List.cons.inj heq).1.symm

theorem eq_of_placeholder_prefix (hname : IsVariableName name) (hother : IsVariableName other)
    (h : placeholder name <+: placeholder other ++ rest) : name = other := by
  have hfirst := placeholder?_eq_some.mpr ⟨hname, h⟩
  rw [placeholder?_eq_some.mpr ⟨hother, List.prefix_append _ _⟩] at hfirst
  exact (Option.some.inj hfirst).symm

theorem names_append (h : '$' ∉ w) (rest : List Char) : names (w ++ rest) = names rest := by
  induction w with
  | nil => rfl
  | cons c w ih =>
    obtain ⟨hc, hw⟩ := List.ne_and_not_mem_of_not_mem_cons h
    rw [List.cons_append, names, placeholder?_of_ne (Ne.symm hc), ih hw]

theorem placeholder_infix_append (h : '$' ∉ w) : placeholder name <:+: w ++ rest ↔ placeholder name <:+: rest := by
  induction w with
  | nil => rfl
  | cons c w ih =>
    obtain ⟨hc, hw⟩ := List.ne_and_not_mem_of_not_mem_cons h
    rw [List.cons_append, List.infix_cons_iff, ih hw, or_iff_right]
    rintro ⟨after, heq⟩
    exact hc (List.cons.inj heq).1

/-- What a text is made of. -/
inductive Token where
  | char (c : Char)
  | slot (name : List Char)
  deriving DecidableEq

def Token.text : Token → List Char
  | .char c => [c]
  | .slot name => placeholder name

def Token.name? : Token → Option (List Char)
  | .char _ => none
  | .slot name => some name

/-- The variables of the placeholders, left to right. -/
def slots (tokens : List Token) : List (List Char) := tokens.filterMap Token.name?

/-- The text read from the left. A character is just that if no placeholder begins there. -/
inductive Reads : List Char → List Token → Prop
  | done : Reads [] []
  | slot {name rest : List Char} {tokens : List Token} : IsVariableName name → Reads rest tokens →
      Reads (placeholder name ++ rest) (.slot name :: tokens)
  | char {c : Char} {rest : List Char} {tokens : List Token} :
      (∀ name, IsVariableName name → ¬ placeholder name <+: c :: rest) → Reads rest tokens →
      Reads (c :: rest) (.char c :: tokens)

variable {tokens : List Token}

private theorem exists_reads_within (n : Nat) (cs : List Char) (hn : cs.length ≤ n) : ∃ tokens, Reads cs tokens := by
  induction n generalizing cs with
  | zero =>
    obtain rfl := List.length_eq_zero_iff.mp (Nat.le_zero.mp hn)
    exact ⟨[], .done⟩
  | succ n ih =>
    cases cs with
    | nil => exact ⟨[], .done⟩
    | cons c rest =>
      by_cases h : ∃ name, IsVariableName name ∧ placeholder name <+: c :: rest
      · obtain ⟨name, hname, after, hafter⟩ := h
        have hshorter : after.length ≤ n := by
          rw [← hafter, List.length_append] at hn
          have hlength := List.length_pos_iff.mpr (placeholder_ne_nil name)
          omega
        obtain ⟨tokens, htokens⟩ := ih after hshorter
        exact ⟨.slot name :: tokens, hafter ▸ .slot hname htokens⟩
      · obtain ⟨tokens, htokens⟩ := ih rest (Nat.le_of_succ_le_succ hn)
        exact ⟨.char c :: tokens, .char (fun name hname hprefix => h ⟨name, hname, hprefix⟩) htokens⟩

theorem exists_reads (cs : List Char) : ∃ tokens, Reads cs tokens := exists_reads_within cs.length cs (Nat.le_refl _)

theorem Reads.flatMap_text (h : Reads cs tokens) : tokens.flatMap Token.text = cs := by
  induction h with
  | done => rfl
  | slot _ _ ih => rw [List.flatMap_cons, ih]; rfl
  | char _ _ ih => rw [List.flatMap_cons, ih]; rfl

theorem Reads.isVariableName (h : Reads cs tokens) (hname : .slot name ∈ tokens) : IsVariableName name := by
  induction h with
  | done => cases hname
  | slot hfirst _ ih =>
    rcases List.mem_cons.mp hname with heq | hname
    · cases heq
      exact hfirst
    · exact ih hname
  | char _ _ ih =>
    rcases List.mem_cons.mp hname with heq | hname
    · cases heq
    · exact ih hname

/-- All placeholders that occur are read: none of them begins inside another. -/
theorem Reads.slot_mem_iff (h : Reads cs tokens) :
    .slot name ∈ tokens ↔ IsVariableName name ∧ placeholder name <:+: cs := by
  constructor
  · intro hmem
    refine ⟨h.isVariableName hmem, ?_⟩
    obtain ⟨before, after, rfl⟩ := List.append_of_mem hmem
    refine ⟨before.flatMap Token.text, after.flatMap Token.text, ?_⟩
    rw [← h.flatMap_text, List.flatMap_append, List.flatMap_cons, List.append_assoc]
    rfl
  · rintro ⟨hname, hoccurs⟩
    induction h with
    | done => exact absurd (List.infix_nil.mp hoccurs) (placeholder_ne_nil name)
    | @slot other rest _ hother _ ih =>
      by_cases hfirst : placeholder name <+: placeholder other ++ rest
      · obtain rfl := eq_of_placeholder_prefix hname hother hfirst
        exact List.mem_cons_self
      · rw [placeholder_append, List.infix_cons_iff] at hoccurs
        exact List.mem_cons_of_mem _ (ih
          ((placeholder_infix_append hother.dollar_not_mem).mp (hoccurs.resolve_left hfirst)))
    | char hnone _ ih =>
      exact List.mem_cons_of_mem _ (ih ((List.infix_cons_iff.mp hoccurs).resolve_left (hnone name hname)))

theorem Reads.names_eq (h : Reads cs tokens) : names cs = slots tokens := by
  induction h with
  | done => rfl
  | @slot name rest tokens hname _ ih =>
    have hfirst := placeholder?_eq_some.mpr ⟨hname, List.prefix_append (placeholder name) rest⟩
    rw [placeholder_append] at hfirst ⊢
    rw [names, hfirst]
    dsimp only
    rw [names_append hname.dollar_not_mem, ih]
    rfl
  | @char c rest tokens hnone _ ih =>
    have hfirst : placeholder? (c :: rest) = none := Option.eq_none_iff_forall_ne_some.mpr fun name h =>
      hnone name (placeholder?_eq_some.mp h).1 (placeholder?_eq_some.mp h).2
    rw [names, hfirst, ih]
    rfl

end BatchExport.Substitution
