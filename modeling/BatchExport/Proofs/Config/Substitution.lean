import BatchExport.Proofs.Config.Placeholders
import BatchExport.Proofs.Text.Blank
import BatchExport.Proofs.Text.Pieces
import Mathlib.Data.List.Forall2
import Mathlib.Data.List.Induction

/-! Variables take the place of their placeholders. Main statement: substitution fails exactly if a placeholder has no
variable, and otherwise the variables of a line have their turns one after the other, which is the same as all at once
as long as no turn meets a placeholder that is not the line's. -/
namespace BatchExport
namespace Substitution

variable {env : Environment} {name cs l out : List Char} {ready later : List (List Char)} {tokens : List Token}

/-- The first character that is not blank is a hash. -/
def IsComment (l : List Char) : Prop := ∃ blank rest, l = blank ++ '#' :: rest ∧ ∀ c ∈ blank, Text.isBlankChar c = true

theorem isComment_iff : isComment l = true ↔ IsComment l := by
  rw [isComment, beq_iff_eq]
  constructor
  · intro h
    obtain ⟨rest, hrest⟩ := List.head?_eq_some_iff.mp h
    refine ⟨l.takeWhile Text.isBlankChar, rest, ?_, fun c hc => List.all_eq_true.mp List.all_takeWhile c hc⟩
    rw [← hrest, Text.trimLeft, List.takeWhile_append_dropWhile]
  · rintro ⟨blank, rest, rfl, hblank⟩
    rw [Text.trimLeft, List.dropWhile_append_of_pos hblank, List.dropWhile_cons_of_neg (by decide)]
    rfl

/-- A line as it is read: a comment has no placeholders. -/
inductive ReadsLine : List Char → List Token → Prop
  | comment {l : List Char} : IsComment l → ReadsLine l (l.map .char)
  | reads {l : List Char} {tokens : List Token} : ¬ IsComment l → Reads l tokens → ReadsLine l tokens

theorem exists_readsLine (l : List Char) : ∃ tokens, ReadsLine l tokens := by
  by_cases h : IsComment l
  · exact ⟨_, .comment h⟩
  · obtain ⟨tokens, htokens⟩ := exists_reads l
    exact ⟨tokens, .reads h htokens⟩

theorem exists_readsLines (lines : List (List Char)) : ∃ read, List.Forall₂ ReadsLine lines read := by
  induction lines with
  | nil => exact ⟨[], .nil⟩
  | cons l lines ih =>
    obtain ⟨tokens, htokens⟩ := exists_readsLine l
    obtain ⟨read, hread⟩ := ih
    exact ⟨tokens :: read, .cons htokens hread⟩

theorem slots_chars (l : List Char) : slots (l.map .char) = [] := by
  rw [slots, List.filterMap_map]
  exact List.filterMap_eq_nil_iff.mpr fun _ _ => rfl

theorem flatMap_text_chars (l : List Char) : (l.map Token.char).flatMap Token.text = l := by
  rw [List.flatMap_map]
  exact List.flatMap_singleton' l

theorem ReadsLine.flatMap_text (h : ReadsLine l tokens) : tokens.flatMap Token.text = l := by
  cases h with
  | comment => exact flatMap_text_chars l
  | reads _ h => exact h.flatMap_text

theorem ReadsLine.lineNames_eq (h : ReadsLine l tokens) : lineNames l = slots tokens := by
  cases h with
  | comment h => rw [lineNames, if_pos (isComment_iff.mpr h), slots_chars]
  | reads hnot h => rw [lineNames, if_neg fun hcomment => hnot (isComment_iff.mp hcomment), h.names_eq]

theorem mem_slots : name ∈ slots tokens ↔ .slot name ∈ tokens := by
  rw [slots, List.mem_filterMap]
  constructor
  · rintro ⟨token, hmem, hname⟩
    cases token with
    | char c => cases hname
    | slot other =>
      cases hname
      exact hmem
  · exact fun hmem => ⟨.slot name, hmem, rfl⟩

theorem mem_lineNames : name ∈ lineNames l ↔ ¬ IsComment l ∧ IsVariableName name ∧ placeholder name <:+: l := by
  obtain ⟨tokens, htokens⟩ := exists_reads l
  rw [lineNames]
  split
  · simp [isComment_iff.mp ‹_›]
  · rw [htokens.names_eq, mem_slots, htokens.slot_mem_iff, ← isComment_iff]
    simp [‹¬_›]

/-! ### All at once and one after the other -/

/-- What a token stands for. A placeholder without a variable stays. -/
def Token.value (env : Environment) : Token → List Char
  | .char c => [c]
  | .slot name => match Entries.get? env (String.ofList name) with
    | some value => value.toList
    | none => placeholder name

/-- The text of a token when these variables have had their turns. -/
def Token.fill (env : Environment) (ready : List (List Char)) : Token → List Char
  | .char c => [c]
  | .slot name => if name ∈ ready then (Token.slot name).value env else placeholder name

/-- The placeholders of the variable in the text are those of the tokens. -/
def ShowsOwn (name : List Char) (text : Token → List Char) (tokens : List Token) : Prop :=
  ∀ before after, tokens.flatMap text = before ++ placeholder name ++ after →
    ∃ earlier later, tokens = earlier ++ .slot name :: later ∧ earlier.flatMap text = before ∧
      text (.slot name) = placeholder name

/-- When a variable has its turn, its placeholders are those of the line: none of them has come with a value. -/
def Undisturbed (env : Environment) (tokens : List Token) : Prop :=
  ∀ earlier name later, slots tokens = earlier ++ name :: later → ShowsOwn name (Token.fill env earlier) tokens

/-- One variable after the other takes the place of its placeholders. -/
inductive Turns (env : Environment) : List (List Char) → List Char → List Char → Prop
  | done (text : List Char) : Turns env [] text text
  | turn {name : List Char} {value : String} {later : List (List Char)} {text next out : List Char} :
      Entries.get? env (String.ofList name) = some value → Text.Replaced (placeholder name) value.toList text next →
      Turns env later next out → Turns env (name :: later) text out

theorem turns_foldl (hset : ∀ name ∈ later, ∃ value, Entries.get? env (String.ofList name) = some value)
    (text : List Char) : Turns env later text (later.foldl (fun text name =>
      match Entries.get? env (String.ofList name) with
      | some value => Text.replaceAll (placeholder name) value.toList text
      | none => text) text) := by
  induction later generalizing text with
  | nil => exact .done text
  | cons name later ih =>
    obtain ⟨value, hvalue⟩ := hset name List.mem_cons_self
    rw [List.foldl_cons, hvalue]
    exact .turn hvalue (Text.replaceAll_replaced (placeholder_ne_nil name) _ _)
      (ih (fun other hother => hset other (List.mem_cons_of_mem _ hother)) _)

theorem ShowsOwn.tail {text : Token → List Char} {token : Token} (h : ShowsOwn name text (token :: tokens)) :
    ShowsOwn name text tokens := by
  intro before after heq
  obtain ⟨earlier, later, hsplit, hbefore, hown⟩ := h (text token ++ before) after (by simp [heq])
  cases earlier with
  | nil =>
    obtain ⟨rfl, rfl⟩ := List.cons.inj hsplit
    have hempty := (List.append_eq_nil_iff.mp hbefore.symm).1
    rw [hown] at hempty
    exact absurd hempty (placeholder_ne_nil name)
  | cons first earlier =>
    obtain ⟨rfl, rfl⟩ := List.cons.inj hsplit
    exact ⟨earlier, later, rfl, List.append_cancel_left hbefore, hown⟩

/-- A turn that meets the line's own placeholders only. -/
theorem replaced_fill {value : String} (hvalue : Entries.get? env (String.ofList name) = some value)
    (h : ShowsOwn name (Token.fill env ready) tokens) :
    Text.Replaced (placeholder name) value.toList (tokens.flatMap (Token.fill env ready))
      (tokens.flatMap (Token.fill env (ready ++ [name]))) := by
  induction tokens with
  | nil => exact .done
  | cons token tokens ih =>
    rw [List.flatMap_cons, List.flatMap_cons]
    by_cases hown : token = .slot name ∧ token.fill env ready = placeholder name
    · obtain ⟨rfl, htext⟩ := hown
      have hfilled : (Token.slot name).fill env (ready ++ [name]) = value.toList := by
        simp [Token.fill, Token.value, hvalue]
      rw [htext, hfilled]
      exact .occurrence (ih h.tail)
    · have hsame : token.fill env (ready ++ [name]) = token.fill env ready := by
        cases token with
        | char c => rfl
        | slot other =>
          by_cases hready : other ∈ ready
          · simp [Token.fill, hready]
          · have hother : other ≠ name := by
              rintro rfl
              exact hown ⟨rfl, by simp [Token.fill, hready]⟩
            simp [Token.fill, hready, hother]
      rw [hsame]
      refine (ih h.tail).append_left fun before after heq => ?_
      obtain ⟨earlier, later, hsplit, hbefore, htext⟩ := h before after heq
      cases earlier with
      | nil =>
        obtain ⟨rfl, rfl⟩ := List.cons.inj hsplit
        exact absurd ⟨rfl, htext⟩ hown
      | cons first earlier =>
        obtain ⟨rfl, rfl⟩ := List.cons.inj hsplit
        rw [← hbefore, List.flatMap_cons, List.length_append]
        exact Nat.le_add_right _ _

theorem flatMap_fill_nil (env : Environment) (tokens : List Token) :
    tokens.flatMap (Token.fill env []) = tokens.flatMap Token.text := by
  refine List.flatMap_congr fun token _ => ?_
  cases token with
  | char c => rfl
  | slot name => rfl

theorem flatMap_fill_slots (env : Environment) (tokens : List Token) :
    tokens.flatMap (Token.fill env (slots tokens)) = tokens.flatMap (Token.value env) := by
  refine List.flatMap_congr fun token htoken => ?_
  cases token with
  | char c => rfl
  | slot name => exact if_pos (mem_slots.mpr htoken)

theorem Undisturbed.turns (h : Undisturbed env tokens) (hslots : slots tokens = ready ++ later)
    (hturns : Turns env later (tokens.flatMap (Token.fill env ready)) out) :
    out = tokens.flatMap (Token.value env) := by
  induction later generalizing ready with
  | nil =>
    cases hturns
    rw [List.append_nil] at hslots
    rw [← hslots, flatMap_fill_slots]
  | cons name later ih =>
    cases hturns with
    | turn hvalue hreplaced hrest =>
      have hown := replaced_fill hvalue (h ready name later hslots)
      rw [hreplaced.eq (placeholder_ne_nil name), ← hown.eq (placeholder_ne_nil name)] at hrest
      exact ih (by rw [hslots, List.append_assoc]; rfl) hrest

/-- Every dollar sign in the text begins one of the placeholders that are left. -/
private theorem showsOwn_of_dollars (hname : IsVariableName name)
    (htokens : ∀ token ∈ tokens, '$' ∉ token.fill env ready ∨
      ∃ other, token = .slot other ∧ IsVariableName other ∧ token.fill env ready = placeholder other) :
    ShowsOwn name (Token.fill env ready) tokens := by
  induction tokens with
  | nil =>
    intro before after heq
    have hnone := (List.append_eq_nil_iff.mp (List.append_eq_nil_iff.mp heq.symm).1).2
    exact absurd hnone (placeholder_ne_nil name)
  | cons token tokens ih =>
    obtain ⟨htoken, htokens⟩ := List.forall_mem_cons.mp htokens
    intro before after heq
    have hlater {more : List Char} (hbefore : before = token.fill env ready ++ more)
        (hrest : tokens.flatMap (Token.fill env ready) = more ++ placeholder name ++ after) :
        ∃ earlier later, token :: tokens = earlier ++ .slot name :: later ∧
          earlier.flatMap (Token.fill env ready) = before ∧ (Token.slot name).fill env ready = placeholder name := by
      obtain ⟨earlier, later, rfl, rfl, hown⟩ := ih htokens more after hrest
      exact ⟨token :: earlier, later, rfl, hbefore.symm, hown⟩
    rw [List.flatMap_cons, List.append_assoc, List.append_eq_append_iff] at heq
    obtain ⟨more, hbefore, hrest⟩ | ⟨more, hfill, hrest⟩ := heq
    · exact hlater hbefore (by rw [hrest, List.append_assoc])
    · cases more with
      | nil =>
        rw [List.append_nil] at hfill
        have hbefore : before = token.fill env ready ++ [] := by rw [hfill, List.append_nil]
        exact hlater hbefore hrest.symm
      | cons c more =>
        obtain rfl := (List.cons.inj hrest).1
        obtain hnone | ⟨other, rfl, hother, hown⟩ := htoken
        · exact absurd (by rw [hfill]; simp) hnone
        · cases before with
          | nil =>
            rw [hown, List.nil_append] at hfill
            rw [← hfill] at hrest
            obtain rfl := eq_of_placeholder_prefix hname hother ⟨after, hrest⟩
            exact ⟨[], tokens, rfl, rfl, hown⟩
          | cons first before =>
            rw [hown, placeholder] at hfill
            have hinside : '{' :: other ++ ['}'] = before ++ '$' :: more := (List.cons.inj hfill).2
            exact absurd (by rw [hinside]; simp) hother.dollar_not_mem

/-- No turn is disturbed if the line has its dollar signs in placeholders only and the values have none. -/
theorem undisturbed_of_dollars (h : ReadsLine l tokens) (hchars : .char '$' ∉ tokens)
    (hvalues : ∀ name ∈ slots tokens, '$' ∉ (Token.slot name).value env) : Undisturbed env tokens := by
  have hnames {name : List Char} (hname : name ∈ slots tokens) : IsVariableName name :=
    (mem_lineNames.mp (h.lineNames_eq ▸ hname)).2.1
  intro ready name later hslots
  refine showsOwn_of_dollars (hnames (hslots ▸ by simp)) fun token htoken => ?_
  cases token with
  | char c =>
    left
    rintro hc
    rw [Token.fill, List.mem_singleton] at hc
    exact hchars (hc ▸ htoken)
  | slot other =>
    have hother := mem_slots.mpr htoken
    rw [Token.fill]
    split
    · exact .inl (hvalues other hother)
    · exact .inr ⟨other, rfl, hnames hother, rfl⟩

/-! ### What is missing -/

/-- The texts that fulfil the condition, each once and in the order of their first places. -/
structure IsFirsts (p : String → Bool) (asked firsts : List String) : Prop where
  nodup : firsts.Nodup
  mem : ∀ name, name ∈ firsts ↔ name ∈ asked ∧ p name = true
  order : firsts.Pairwise fun a b => asked.idxOf a < asked.idxOf b

theorem IsFirsts.of_order {p : String → Bool} {asked firsts : List String}
    (hmem : ∀ name, name ∈ firsts ↔ name ∈ asked ∧ p name = true)
    (horder : firsts.Pairwise fun a b => asked.idxOf a < asked.idxOf b) : IsFirsts p asked firsts := by
  refine ⟨horder.imp ?_, hmem, horder⟩
  rintro a _ h rfl
  exact Nat.lt_irrefl _ h

theorem isFirsts_foldl (p : String → Bool) (asked : List String) : IsFirsts p asked ((asked.filter p).foldl
    (fun seen name => if seen.contains name then seen else seen ++ [name]) []) := by
  -- from the right: the last name is new or has been there before
  induction asked using List.reverseRecOn with
  | nil => exact .of_order (by simp) .nil
  | append_singleton asked name ih =>
    rw [List.filter_append, List.foldl_append]
    generalize (asked.filter p).foldl (fun seen name => if seen.contains name then seen else seen ++ [name]) [] = firsts
      at ih ⊢
    have horder : firsts.Pairwise fun a b => (asked ++ [name]).idxOf a < (asked ++ [name]).idxOf b := by
      refine ih.order.imp_of_mem fun ha hb h => ?_
      rwa [List.idxOf_append_of_mem ((ih.mem _).mp ha).1, List.idxOf_append_of_mem ((ih.mem _).mp hb).1]
    cases hp : p name with
    | false =>
      have hnone : [name].filter p = [] := List.filter_cons_of_neg (by simp [hp])
      rw [hnone]
      refine .of_order (fun other => ?_) horder
      rw [List.foldl_nil, ih.mem, List.mem_append, List.mem_singleton]
      refine and_congr_left fun hother => (or_iff_left ?_).symm
      rintro rfl
      rw [hp] at hother
      cases hother
    | true =>
      have hone : [name].filter p = [name] := List.filter_cons_of_pos hp
      rw [hone, List.foldl_cons, List.foldl_nil]
      split
      · have hname : name ∈ asked := ((ih.mem name).mp (List.contains_iff_mem.mp ‹_›)).1
        refine .of_order (fun other => ?_) horder
        rw [ih.mem, List.mem_append, List.mem_singleton, or_iff_left_of_imp]
        rintro rfl
        exact hname
      · have hlast : name ∉ asked := fun h => ‹¬_› (List.contains_iff_mem.mpr ((ih.mem name).mpr ⟨h, hp⟩))
        refine .of_order (fun other => ?_) ?_
        · rw [List.mem_append, List.mem_append, List.mem_singleton, ih.mem, or_and_right]
          refine or_congr_right (iff_self_and.mpr ?_)
          rintro rfl
          exact hp
        · refine List.pairwise_append.mpr ⟨horder, List.pairwise_singleton _ _, fun first hfirst last hmem => ?_⟩
          obtain rfl := List.mem_singleton.mp hmem
          have hasked := ((ih.mem first).mp hfirst).1
          rw [List.idxOf_append_of_mem hasked, List.idxOf_append_of_notMem hlast]
          exact Nat.lt_add_right _ (List.idxOf_lt_length_iff.mpr hasked)

theorem flatMap_lineNames {lines : List (List Char)} {read : List (List Token)}
    (h : List.Forall₂ ReadsLine lines read) : lines.flatMap lineNames = read.flatMap slots := by
  induction h with
  | nil => rfl
  | cons hfirst _ ih => rw [List.flatMap_cons, List.flatMap_cons, ih, hfirst.lineNames_eq]

/-- The variable is not in the environment. -/
def isUnset (env : Environment) (name : String) : Bool := (Entries.get? env name).isNone

theorem missing_isFirsts {lines : List (List Char)} {read : List (List Token)} (h : List.Forall₂ ReadsLine lines read) :
    IsFirsts (isUnset env) ((read.flatMap slots).map String.ofList) (missing env lines) := by
  rw [← flatMap_lineNames h]
  exact isFirsts_foldl (isUnset env) _

theorem missing_eq_nil_iff {lines : List (List Char)} : missing env lines = [] ↔
    ∀ l ∈ lines, ∀ name ∈ lineNames l, ∃ value, Entries.get? env (String.ofList name) = some value := by
  obtain ⟨read, hread⟩ := exists_readsLines lines
  have hfirsts : IsFirsts (isUnset env) _ (missing env lines) := missing_isFirsts hread
  rw [← flatMap_lineNames hread] at hfirsts
  have hmissing := hfirsts.mem
  constructor
  · intro hnone l hl name hname
    refine Option.ne_none_iff_exists'.mp fun hunset => ?_
    have hasked : String.ofList name ∈ (lines.flatMap lineNames).map String.ofList :=
      List.mem_map_of_mem (List.mem_flatMap_of_mem hl hname)
    have hmem := (hmissing _).mpr ⟨hasked, Option.isNone_iff_eq_none.mpr hunset⟩
    rw [hnone] at hmem
    cases hmem
  · intro hset
    rw [List.eq_nil_iff_forall_not_mem]
    intro name hmem
    obtain ⟨hasked, hunset⟩ := (hmissing name).mp hmem
    obtain ⟨cs, hcs, rfl⟩ := List.mem_map.mp hasked
    obtain ⟨l, hl, hname⟩ := List.mem_flatMap.mp hcs
    obtain ⟨value, hvalue⟩ := hset l hl cs hname
    rw [isUnset, hvalue] at hunset
    cases hunset

/-! ### Texts -/

/-- What becomes of a line. -/
structure Becomes (env : Environment) (l out : List Char) : Prop where
  comment : IsComment l → out = l
  turns : ∀ tokens, ReadsLine l tokens → Turns env (slots tokens) l out
  undisturbed : ∀ tokens, ReadsLine l tokens → Undisturbed env tokens → out = tokens.flatMap (Token.value env)

theorem becomes_line (hset : ∀ name ∈ lineNames l, ∃ value, Entries.get? env (String.ofList name) = some value) :
    Becomes env l (line env l) := by
  have hturns (tokens : List Token) (h : ReadsLine l tokens) : Turns env (slots tokens) l (line env l) := by
    rw [line, h.lineNames_eq]
    exact turns_foldl (fun name hname => hset name (h.lineNames_eq ▸ hname)) l
  refine ⟨fun h => ?_, hturns, fun tokens h hown => ?_⟩
  · rw [line, lineNames, if_pos (isComment_iff.mpr h)]
    rfl
  · refine hown.turns (List.nil_append _).symm ?_
    rw [flatMap_fill_nil, h.flatMap_text]
    exact hturns tokens h

/-- Substitution fails exactly if a placeholder outside the comments has no variable, and then it names each variable
that is missing once, in the order of their first placeholders. Otherwise the variables of a line have their turns one
after the other. That is the same as all at once, with values that nobody looks at again, if no turn meets a placeholder
that is not the line's. -/
theorem variables_take_turns (env : Environment) (text : String) :
    ((∃ out, apply env text = .ok out) ↔
      ∀ l ∈ Text.lines text.toList, ¬ IsComment l → ∀ name, IsVariableName name → placeholder name <:+: l →
        ∃ value, Entries.get? env (String.ofList name) = some value) ∧
    (∃ read, List.Forall₂ ReadsLine (Text.lines text.toList) read) ∧
    (∀ read, List.Forall₂ ReadsLine (Text.lines text.toList) read → ∀ names, apply env text = .error names →
      IsFirsts (isUnset env) ((read.flatMap slots).map String.ofList) names) ∧
    ∀ out, apply env text = .ok out → ∃ outs, out.toList = outs.flatMap (· ++ ['\n']) ∧
      List.Forall₂ (Becomes env) (Text.lines text.toList) outs := by
  have hset : missing env (Text.lines text.toList) = [] ↔ ∀ l ∈ Text.lines text.toList, ¬ IsComment l →
      ∀ name, IsVariableName name → placeholder name <:+: l →
        ∃ value, Entries.get? env (String.ofList name) = some value := by
    simp only [missing_eq_nil_iff, mem_lineNames, and_imp]
    exact forall₂_congr fun l _ => ⟨fun h hcomment name => h name hcomment, fun h name hcomment => h hcomment name⟩
  have hread := exists_readsLines (Text.lines text.toList)
  cases hmissing : missing env (Text.lines text.toList) with
  | nil =>
    have happly : apply env text =
        .ok (String.ofList ((Text.lines text.toList).flatMap fun l => line env l ++ ['\n'])) := by
      simp only [apply, hmissing]
    rw [happly]
    refine ⟨iff_of_true ⟨_, rfl⟩ (hset.mp hmissing), hread, fun _ _ names h => ?_, fun out hout => ?_⟩
    · cases h
    · obtain rfl := Except.ok.inj hout
      refine ⟨(Text.lines text.toList).map (line env), ?_, ?_⟩
      · rw [String.toList_ofList, List.flatMap_map]
      · rw [List.forall₂_map_right_iff, List.forall₂_same]
        exact fun l hl => becomes_line (missing_eq_nil_iff.mp hmissing l hl)
  | cons first more =>
    have happly : apply env text = .error (first :: more) := by simp only [apply, hmissing]
    rw [happly]
    refine ⟨iff_of_false ?_ fun h => ?_, hread, fun read hlines names h => ?_, fun out hout => ?_⟩
    · rintro ⟨out, hout⟩
      cases hout
    · rw [← hset, hmissing] at h
      cases h
    · obtain rfl := Except.error.inj h
      rw [← hmissing]
      exact missing_isFirsts hlines
    · cases hout

end Substitution

namespace NestedValues

open Substitution

def env : Environment := [("A", "${B}"), ("B", "x"), ("HOST", "h:1")]

private theorem isVariableName {first : Char} {more : List Char} (hfirst : isNameStart first = true)
    (hmore : more.all isNameChar = true) : IsVariableName (first :: more) :=
  ⟨first, more, rfl, hfirst, List.all_eq_true.mp hmore⟩

private theorem not_isComment {first : Char} {more : List Char} (hblank : Text.isBlankChar first = false)
    (hfirst : first ≠ '#') : ¬ IsComment (first :: more) := by
  rw [← isComment_iff, isComment, Text.trimLeft, List.dropWhile_cons_of_neg (by simp [hblank])]
  simpa using hfirst

/-- The value of the first variable is looked at when the second one has its turn, and in the other order it is not. -/
theorem value_is_looked_at :
    (apply env "${A}-${B}").toOption = some "x-x\n" ∧ (apply env "${B}-${A}").toOption = some "x-${B}\n" ∧
      ReadsLine "${A}-${B}".toList [.slot ['A'], .char '-', .slot ['B']] ∧
      [.slot ['A'], .char '-', .slot ['B']].flatMap (Token.value env) = "${B}-x".toList := by
  refine ⟨by decide +kernel, by decide +kernel, .reads (not_isComment (by decide) (by decide)) ?_, by decide +kernel⟩
  have ha : IsVariableName ['A'] := isVariableName (by decide) (by decide)
  have hb : IsVariableName ['B'] := isVariableName (by decide) (by decide)
  refine .slot ha (.char ?_ (.slot hb .done))
  rintro name - ⟨after, heq⟩
  cases heq

def host : List Char := ['H', 'O', 'S', 'T']

/-- The variable that the second line names is missing, and nobody asks for it. -/
def text : String := "${HOST}/${HOST}\n# ${NONE}"

private theorem lines_text : Text.lines text.toList = ["${HOST}/${HOST}".toList, "# ${NONE}".toList] := by
  decide +kernel

private theorem reads_first : Reads "${HOST}/${HOST}".toList [.slot host, .char '/', .slot host] := by
  have hhost : IsVariableName host := isVariableName (by decide) (by decide)
  refine .slot hhost (.char ?_ (.slot hhost .done))
  rintro name - ⟨after, heq⟩
  cases heq

theorem host_is_filled_in : ∃ out, apply env text = .ok out ∧ out.toList = "h:1/h:1\n# ${NONE}\n".toList := by
  obtain ⟨hsuccess, -, -, hbecomes⟩ := variables_take_turns env text
  rw [lines_text] at hsuccess hbecomes
  have hcomment : IsComment "# ${NONE}".toList := ⟨[], " ${NONE}".toList, rfl, by simp⟩
  have hset : ∀ l ∈ ["${HOST}/${HOST}".toList, "# ${NONE}".toList], ¬ IsComment l → ∀ name, IsVariableName name →
      placeholder name <:+: l → ∃ value, Entries.get? env (String.ofList name) = some value := by
    simp only [List.forall_mem_cons, List.not_mem_nil, false_implies, implies_true, and_true]
    refine ⟨fun _ name hname hoccurs => ?_, fun hnot => absurd hcomment hnot⟩
    have hmem := reads_first.slot_mem_iff.mpr ⟨hname, hoccurs⟩
    obtain rfl : name = host := by simpa using hmem
    exact ⟨"h:1", by decide⟩
  obtain ⟨out, hout⟩ := hsuccess.mpr hset
  obtain ⟨outs, hlines, houts⟩ := hbecomes out hout
  obtain ⟨first, rest, hfirst, hrest, rfl⟩ := List.forall₂_cons_left_iff.mp houts
  obtain ⟨second, rest, hsecond, hend, rfl⟩ := List.forall₂_cons_left_iff.mp hrest
  obtain rfl := List.forall₂_nil_left_iff.mp hend
  have hline : ReadsLine "${HOST}/${HOST}".toList [.slot host, .char '/', .slot host] :=
    .reads (not_isComment (by decide) (by decide)) reads_first
  have hown : Undisturbed env [.slot host, .char '/', .slot host] :=
    undisturbed_of_dollars hline (by decide) (by decide +kernel)
  rw [hfirst.undisturbed _ hline hown, hsecond.comment hcomment] at hlines
  exact ⟨out, hout, hlines.trans (by decide +kernel)⟩

end NestedValues
end BatchExport
