import BatchExport.Proofs.Text.Pieces
import BatchExport.Text.Decimal
import Mathlib.Data.List.Basic
import Mathlib.Data.List.Induction

/-! Addresses of resources, read by their marks. Main statements: what an address names whose text goes on below that of
another one, and which segments decode to themselves. -/
namespace BatchExport

namespace Text

variable {mark : Char} {cs before after : List Char}

/-- What comes before the first mark, and what comes after it if there is one. -/
def cutAt (mark : Char) : List Char → List Char × Option (List Char)
  | [] => ([], none)
  | c :: rest => if c = mark then ([], some rest) else (c :: (cutAt mark rest).1, (cutAt mark rest).2)

theorem cutAt_of_not_mem (h : mark ∉ cs) : cutAt mark cs = (cs, none) := by
  induction cs with
  | nil => rfl
  | cons c cs ih =>
    have hc : c ≠ mark := fun heq => h (by simp [heq])
    rw [cutAt, if_neg hc, ih fun hmem => h (List.mem_cons_of_mem _ hmem)]

/-- What is appended comes after the first mark, too. -/
theorem cutAt_append (h : cutAt mark cs = (before, some after)) (more : List Char) :
    cutAt mark (cs ++ more) = (before, some (after ++ more)) := by
  induction cs generalizing before with
  | nil => cases h
  | cons c cs ih =>
    rw [List.cons_append, cutAt]
    rw [cutAt] at h
    split at h
    · cases h
      rw [if_pos ‹_›]
    · obtain ⟨hbefore, hafter⟩ := Prod.mk.inj h
      rw [if_neg ‹_›, ih (Prod.ext rfl hafter), ← hbefore]

theorem cutAt_mark (h : mark ∉ cs) (after : List Char) : cutAt mark (cs ++ mark :: after) = (cs, some after) := by
  induction cs with
  | nil => rw [List.nil_append, cutAt, if_pos rfl]
  | cons c cs ih =>
    have hc : c ≠ mark := fun heq => h (by simp [heq])
    rw [List.cons_append, cutAt, if_neg hc, ih fun hmem => h (List.mem_cons_of_mem _ hmem)]

/-- Nothing comes after a mark that is not there. -/
theorem not_mem_of_cutAt (h : cutAt mark cs = (before, none)) : mark ∉ cs ∧ before = cs := by
  induction cs generalizing before with
  | nil =>
    cases h
    exact ⟨List.not_mem_nil, rfl⟩
  | cons c cs ih =>
    rw [cutAt] at h
    split at h
    · cases h
    · obtain ⟨hbefore, hafter⟩ := Prod.mk.inj h
      obtain ⟨hmem, hsame⟩ := ih (Prod.ext rfl hafter)
      exact ⟨by simpa [hmem] using Ne.symm ‹¬c = mark›, hbefore.symm.trans (congrArg (c :: ·) hsame)⟩

end Text

/-- Where a resource is. Its path has no dots left, but still its escapes. -/
structure Address where
  scheme : List Char
  authority : List Char
  path : List (List Char)
  query : Option (List Char)
  fragment : Option (List Char)
  deriving DecidableEq

namespace Address

/-- One segment further: dots stay where they are or lead back. -/
def follow (before : List (List Char)) (segment : List Char) : List (List Char) :=
  if segment = ['.'] then before
  else if segment = ['.', '.'] then before.dropLast
  else before ++ [segment]

/-- The scheme is cut off first, then the authority. -/
def ofPlace? (cs : List Char) (query fragment : Option (List Char)) : Option Address :=
  match Text.cutAt ':' cs with
  | (scheme, some ('/' :: '/' :: rest)) =>
    let (authority, path) := Text.cutAt '/' rest
    let segments := (path.map (Text.splitAt '/')).getD []
    if authority = [] then none else some { scheme, authority, path := segments.foldl follow [], query, fragment }
  | _ => none

/-- What comes after the first number sign is the fragment, and what comes after the first question mark before it is the
query. -/
def read? (cs : List Char) : Option Address :=
  let beforeFragment := Text.cutAt '#' cs
  let beforeQuery := Text.cutAt '?' beforeFragment.1
  ofPlace? beforeQuery.1 beforeQuery.2 beforeFragment.2

def bytes (cs : List Char) : List UInt8 := cs.flatMap String.utf8EncodeChar

/-- The bytes that a segment stands for. A percent sign without two digits stands for itself. -/
def decode : List Char → List UInt8
  | [] => []
  | '%' :: x :: y :: rest =>
    match Text.hexValue? x, Text.hexValue? y with
    | some high, some low => UInt8.ofNat (16 * high + low) :: decode rest
    | _, _ => String.utf8EncodeChar '%' ++ decode (x :: y :: rest)
  | c :: rest => String.utf8EncodeChar c ++ decode rest

/-- Somewhere there is a percent sign with two digits. -/
inductive HasEscape : List Char → Prop
  | here {x y : Char} {high low : Nat} {rest : List Char} (first : Text.hexValue? x = some high)
      (second : Text.hexValue? y = some low) : HasEscape ('%' :: x :: y :: rest)
  | later {c : Char} {rest : List Char} (h : HasEscape rest) : HasEscape (c :: rest)

section Segments

variable {cs cs' : List Char}

theorem bytes_cons (c : Char) (cs : List Char) : bytes (c :: cs) = String.utf8EncodeChar c ++ bytes cs := rfl

theorem length_bytes_cons (c : Char) (cs : List Char) : (bytes cs).length < (bytes (c :: cs)).length := by
  have hpos := c.utf8Size_pos
  rw [bytes_cons, List.length_append, String.length_utf8EncodeChar]
  omega

theorem bytes_injective (h : bytes cs = bytes cs') : cs = cs' := by
  refine String.ofList_inj.mp (String.toByteArray_inj.mp ?_)
  rw [String.toByteArray_ofList, String.toByteArray_ofList]
  exact congrArg List.toByteArray h

/-- Escapes only shorten. -/
theorem length_decode_le (cs : List Char) : (decode cs).length ≤ (bytes cs).length := by
  fun_induction decode cs with
  | case1 => exact Nat.le_refl _
  | case2 x y rest _ _ _ _ ih =>
    have hx := length_bytes_cons x (y :: rest)
    have hy := length_bytes_cons y rest
    have hmark := length_bytes_cons '%' (x :: y :: rest)
    rw [List.length_cons]
    omega
  | case3 x y rest _ ih =>
    rw [bytes_cons, List.length_append, List.length_append]
    omega
  | case4 c rest _ ih =>
    rw [bytes_cons, List.length_append, List.length_append]
    omega

theorem length_decode_lt (h : HasEscape cs) : (decode cs).length < (bytes cs).length := by
  fun_induction decode cs with
  | case1 => cases h
  | case2 x y rest _ _ _ _ ih =>
    have hrest := length_decode_le rest
    have hx := length_bytes_cons x (y :: rest)
    have hy := length_bytes_cons y rest
    have hmark := length_bytes_cons '%' (x :: y :: rest)
    rw [List.length_cons]
    omega
  | case3 x y rest hnone ih =>
    cases h with
    | here first second => exact absurd second (hnone _ _ first)
    | later h =>
      have hrest := ih h
      rw [bytes_cons, List.length_append, List.length_append]
      omega
  | case4 c rest hother ih =>
    cases h with
    | here => exact absurd rfl (hother _ _ _ rfl)
    | later h =>
      have hrest := ih h
      rw [bytes_cons, List.length_append, List.length_append]
      omega

/-- Exactly the segments without escapes stand for themselves. -/
theorem decode_eq_bytes_iff : decode cs = bytes cs ↔ ¬ HasEscape cs := by
  refine ⟨fun h hescape => ?_, fun h => ?_⟩
  · have hlength := length_decode_lt hescape
    rw [h] at hlength
    exact Nat.lt_irrefl _ hlength
  · fun_induction decode cs with
    | case1 => rfl
    | case2 x y rest high low hlow hhigh ih => exact absurd (.here hhigh hlow) h
    | case3 x y rest hnone ih => rw [bytes_cons, ih fun hrest => h (.later hrest)]
    | case4 c rest hother ih => rw [bytes_cons, ih fun hrest => h (.later hrest)]

example : decode "a%2Fb%".toList = bytes "a/b%".toList := by decide

end Segments

section Reading

variable {cs more : List Char} {a base : Address} {query fragment : Option (List Char)}

theorem ofPlace?_eq_some_iff : ofPlace? cs query fragment = some a ↔ a.query = query ∧ a.fragment = fragment ∧
    a.authority ≠ [] ∧ ∃ rest path, Text.cutAt ':' cs = (a.scheme, some ('/' :: '/' :: rest)) ∧
      Text.cutAt '/' rest = (a.authority, path) ∧
      a.path = ((path.map (Text.splitAt '/')).getD []).foldl follow [] := by
  obtain ⟨scheme, authority, path, query', fragment'⟩ := a
  refine ⟨fun h => ?_, fun ⟨hquery, hfragment, hauthority, rest, segments, hscheme, hcut, hpath⟩ => ?_⟩
  · unfold ofPlace? at h
    split at h
    · rename_i rest hscheme
      generalize hcut : Text.cutAt '/' rest = cut at h
      obtain ⟨authority', path'⟩ := cut
      by_cases hempty : authority' = []
      · simp [hempty] at h
      · simp only [hempty, if_false, Option.some.injEq, Address.mk.injEq] at h
        obtain ⟨rfl, rfl, rfl, rfl, rfl⟩ := h
        exact ⟨rfl, rfl, hempty, rest, path', hscheme, hcut, rfl⟩
    · cases h
  · subst hquery hfragment hpath
    simp only [ofPlace?, hscheme, hcut, hauthority, if_false]

/-- A slash and more after an address lead on from where its path ends. -/
theorem ofPlace?_below (h : ofPlace? cs query fragment = some a) (more : List Char) :
    ofPlace? (cs ++ '/' :: more) query fragment =
      some { a with path := (Text.splitAt '/' more).foldl follow a.path } := by
  obtain ⟨hquery, hfragment, hauthority, rest, path, hscheme, hcut, hpath⟩ := ofPlace?_eq_some_iff.mp h
  rw [ofPlace?_eq_some_iff]
  have hscheme' := Text.cutAt_append hscheme ('/' :: more)
  cases path with
  | none =>
    obtain ⟨hmem, hall⟩ := Text.not_mem_of_cutAt hcut
    refine ⟨hquery, hfragment, hauthority, rest ++ '/' :: more, some more, hscheme', ?_, ?_⟩
    · rw [Text.cutAt_mark hmem, hall]
    · rw [hpath]
      rfl
  | some path =>
    refine ⟨hquery, hfragment, hauthority, rest ++ '/' :: more, some (path ++ '/' :: more), hscheme',
      Text.cutAt_append hcut _, ?_⟩
    simp only [hpath, Option.map_some, Option.getD_some, Text.splitAt_separator, List.foldl_append]

theorem marks_of_read? (h : read? cs = some a) : a.query = none ∧ a.fragment = none ↔ '?' ∉ cs ∧ '#' ∉ cs := by
  obtain ⟨hquery, hfragment, -⟩ := ofPlace?_eq_some_iff.mp h
  rw [hquery, hfragment]
  refine ⟨fun ⟨hnoQuery, hnoFragment⟩ => ?_, fun ⟨hnoQuery, hnoFragment⟩ => ?_⟩
  · obtain ⟨hmem, hall⟩ := Text.not_mem_of_cutAt (Prod.ext rfl hnoFragment)
    obtain ⟨hmem', -⟩ := Text.not_mem_of_cutAt (Prod.ext rfl hnoQuery)
    exact ⟨hall ▸ hmem', hmem⟩
  · rw [Text.cutAt_of_not_mem hnoFragment, Text.cutAt_of_not_mem hnoQuery]
    exact ⟨rfl, rfl⟩

theorem read?_of_noMarks (hquery : '?' ∉ cs) (hfragment : '#' ∉ cs) : read? cs = ofPlace? cs none none := by
  rw [read?, Text.cutAt_of_not_mem hfragment, Text.cutAt_of_not_mem hquery]

/-- Without other marks, a text below that of an address leads on from where its path ends. -/
theorem read?_below (h : read? cs = some a) (hquery : '?' ∉ cs ++ more) (hfragment : '#' ∉ cs ++ more) :
    read? (cs ++ '/' :: more) = some { a with path := (Text.splitAt '/' more).foldl follow a.path } := by
  have hplace : ofPlace? cs none none = some a := by
    rw [← read?_of_noMarks (fun hmem => hquery (by simp [hmem])) fun hmem => hfragment (by simp [hmem]), h]
  rw [read?_of_noMarks (by simpa using hquery) (by simpa using hfragment)]
  exact ofPlace?_below hplace more

end Reading

section Following

variable {before segments : List (List Char)} {segment : List Char}

/-- What is left after all have been followed begins with segments from before, and new ones come after them. -/
theorem foldl_follow (before segments : List (List Char)) :
    ∃ n l, segments.foldl follow before = before.take n ++ l ∧ l ⊆ segments := by
  induction segments using List.reverseRecOn with
  | nil => exact ⟨before.length, [], by simp, List.nil_subset _⟩
  | append_singleton segments segment ih =>
    obtain ⟨n, l, heq, hsub⟩ := ih
    have hsub' : l ⊆ segments ++ [segment] := fun _ hmem => List.mem_append_left _ (hsub hmem)
    rw [List.foldl_append, List.foldl_cons, List.foldl_nil, heq, follow]
    split
    · exact ⟨n, l, rfl, hsub'⟩
    · split
      · -- back over a new segment, or over one from before
        rcases List.eq_nil_or_concat' l with rfl | ⟨l, last, rfl⟩
        · refine ⟨min n before.length - 1, [], ?_, List.nil_subset _⟩
          rw [List.append_nil, List.append_nil, List.dropLast_eq_take, List.take_take, List.length_take]
          congr 1
          omega
        · refine ⟨n, l, by simp [← List.append_assoc], fun _ hmem => hsub' (by simp [hmem])⟩
      · refine ⟨n, l ++ [segment], by rw [List.append_assoc], ?_⟩
        exact List.append_subset.mpr ⟨hsub', by simp⟩

/-- If one segment more has been reached, then it is one of those that have been followed. -/
theorem mem_of_foldl_follow (h : segments.foldl follow before = before ++ [segment]) : segment ∈ segments := by
  obtain ⟨n, l, heq, hsub⟩ := foldl_follow before segments
  rw [heq] at h
  rcases List.eq_nil_or_concat' l with rfl | ⟨l, last, rfl⟩
  · have hlength := congrArg List.length h
    simp only [List.append_nil, List.length_take, List.length_append, List.length_singleton] at hlength
    omega
  · have hlast := congrArg List.getLast? h
    rw [← List.append_assoc, List.getLast?_concat, List.getLast?_concat] at hlast
    cases hlast
    exact hsub (by simp)

/-- A piece of a text is the whole text or shorter. -/
theorem length_bytes_of_mem_splitAt {sep : Char} {cs piece : List Char} (h : piece ∈ Text.splitAt sep cs) :
    piece = cs ∨ (bytes piece).length < (bytes cs).length := by
  induction cs generalizing piece with
  | nil => exact .inl (by simpa [Text.splitAt] using h)
  | cons c cs ih =>
    have hcons := length_bytes_cons c cs
    have hless {other : List Char} (hother : other ∈ Text.splitAt sep cs) :
        (bytes other).length < (bytes (c :: cs)).length := by
      obtain rfl | hlt := ih hother
      · exact hcons
      · exact Nat.lt_trans hlt hcons
    obtain ⟨first, more, hpieces⟩ := List.exists_cons_of_ne_nil (Text.splitAt_ne_nil sep cs)
    rw [Text.splitAt, hpieces] at h
    rw [hpieces] at hless ih
    split at h
    · obtain rfl | h := List.mem_cons.mp h
      · exact .inr (Nat.lt_of_le_of_lt (Nat.zero_le _) hcons)
      · exact .inr (hless h)
    · obtain rfl | h := List.mem_cons.mp h
      · obtain rfl | hlt := ih List.mem_cons_self
        · exact .inl rfl
        · refine .inr ?_
          rw [bytes_cons, bytes_cons, List.length_append, List.length_append]
          exact Nat.add_lt_add_left hlt _
      · exact .inr (hless (List.mem_cons_of_mem _ h))

/-- Segments without dots lead on. -/
theorem foldl_follow_of_noDots (h : ∀ segment ∈ segments, segment ≠ ['.'] ∧ segment ≠ ['.', '.']) :
    segments.foldl follow before = before ++ segments := by
  induction segments generalizing before with
  | nil => simp
  | cons segment segments ih =>
    obtain ⟨hdot, hdots⟩ := h segment List.mem_cons_self
    rw [List.foldl_cons, follow, if_neg hdot, if_neg hdots, ih fun other hother => h other (List.mem_cons_of_mem _ hother),
      List.append_assoc, List.singleton_append]

/-- One segment further that stands for a text is reached exactly if the text is a single segment without dots and
escapes. -/
theorem foldl_follow_iff (before : List (List Char)) {cs : List Char} :
    (∃ segment, (Text.splitAt '/' cs).foldl follow before = before ++ [segment] ∧ decode segment = bytes cs) ↔
      '/' ∉ cs ∧ cs ≠ ['.'] ∧ cs ≠ ['.', '.'] ∧ ¬ HasEscape cs := by
  refine ⟨fun ⟨segment, hpath, hdecode⟩ => ?_, fun ⟨hslash, hdot, hdots, hescape⟩ => ?_⟩
  · -- the segment is a piece of the text, and a piece that is not all of it has too few bytes to stand for it
    have hmem := mem_of_foldl_follow hpath
    obtain rfl | hlt := length_bytes_of_mem_splitAt hmem
    · have hslash := Text.not_mem_of_mem_splitAt hmem
      rw [Text.splitAt_of_not_mem hslash, List.foldl_cons, List.foldl_nil] at hpath
      refine ⟨hslash, ?_, ?_, decode_eq_bytes_iff.mp hdecode⟩
      · rintro rfl
        have hlength := congrArg List.length hpath
        simp [follow] at hlength
      · rintro rfl
        have hlength := congrArg List.length hpath
        simp [follow] at hlength
    · have hle := length_decode_le segment
      rw [hdecode] at hle
      omega
  · refine ⟨cs, ?_, decode_eq_bytes_iff.mpr hescape⟩
    rw [Text.splitAt_of_not_mem hslash, List.foldl_cons, List.foldl_nil, follow, if_neg hdot, if_neg hdots]

end Following
end Address
end BatchExport
