import BatchExport.Json.Value

/-! Members of objects. Main statements: what is found under a key after members are put in, that the order in which
they are put in does not matter, and members in key order stay in order. -/
namespace BatchExport.Json

variable {key k : String} {value v : Json} {members rest : List (String × Json)}

/-- Keys in ascending order, each of them once. -/
def InKeyOrder (members : List (String × Json)) : Prop := members.Pairwise (·.1 < ·.1)

theorem lookup_member_cons (k : String) (v : Json) (rest : List (String × Json)) (key : String) :
    ((k, v) :: rest).lookup key = if key = k then some v else rest.lookup key := by
  rw [List.lookup_cons]
  by_cases h : key = k
  · rw [if_pos h, h, beq_self_eq_true]
  · rw [if_neg h, beq_false_of_ne h]

theorem lookup_insertMember (key other : String) (value : Json) (members : List (String × Json)) :
    (insertMember key value members).lookup other = if other = key then some value else members.lookup other := by
  induction members with
  | nil => exact lookup_member_cons key value [] other
  | cons first rest ih =>
    obtain ⟨k, v⟩ := first
    rw [insertMember]
    split
    · exact lookup_member_cons key value _ other
    · split
      · rename_i hkey
        subst hkey
        simp only [lookup_member_cons]
        split <;> rfl
      · rename_i hkey
        rw [lookup_member_cons, lookup_member_cons, ih]
        split
        · rename_i hk
          rw [if_neg fun h => hkey (h.symm.trans hk)]
        · rfl

theorem insertMember_of_lt (h : key < k) : insertMember key value ((k, v) :: rest) = (key, value) :: (k, v) :: rest := by
  rw [insertMember, if_pos h]

theorem insertMember_of_gt (h : k < key) :
    insertMember key value ((k, v) :: rest) = (k, v) :: insertMember key value rest := by
  have hnot : ¬ key < k := fun hgt => String.lt_irrefl k (String.lt_trans h hgt)
  have hne : key ≠ k := fun heq => String.lt_irrefl k (heq ▸ h)
  rw [insertMember, if_neg hnot, if_neg hne]

theorem insertMember_same (key : String) (value v : Json) (rest : List (String × Json)) :
    insertMember key value ((key, v) :: rest) = (key, value) :: rest := by
  rw [insertMember, if_neg (String.lt_irrefl key), if_pos rfl]

/-- The value that is put in last stays. -/
theorem insertMember_insertMember (key : String) (value v : Json) (members : List (String × Json)) :
    insertMember key value (insertMember key v members) = insertMember key value members := by
  induction members with
  | nil => exact insertMember_same key value v []
  | cons first rest ih =>
    obtain ⟨k, w⟩ := first
    obtain hlt | rfl | hgt := Std.lt_trichotomy key k
    · rw [insertMember_of_lt hlt, insertMember_of_lt hlt, insertMember_same]
    · rw [insertMember_same, insertMember_same, insertMember_same]
    · rw [insertMember_of_gt hgt, insertMember_of_gt hgt, insertMember_of_gt hgt, ih]

private theorem insertMember_comm_of_lt {other : String} (h : key < other) (value w : Json)
    (members : List (String × Json)) :
    insertMember key value (insertMember other w members) = insertMember other w (insertMember key value members) := by
  induction members with
  | nil => rw [insertMember, insertMember, insertMember_of_lt h, insertMember_of_gt h, insertMember]
  | cons first rest ih =>
    obtain ⟨k, v⟩ := first
    obtain hlt | rfl | hgt := Std.lt_trichotomy key k
    · rw [insertMember_of_lt hlt, insertMember_of_gt h]
      obtain hother | rfl | hother := Std.lt_trichotomy other k
      · rw [insertMember_of_lt hother, insertMember_of_lt h]
      · rw [insertMember_same, insertMember_of_lt h]
      · rw [insertMember_of_gt hother, insertMember_of_lt hlt]
    · rw [insertMember_of_gt h, insertMember_same, insertMember_same, insertMember_of_gt h]
    · rw [insertMember_of_gt (String.lt_trans hgt h), insertMember_of_gt hgt, insertMember_of_gt hgt,
        insertMember_of_gt (String.lt_trans hgt h), ih]

/-- Values under different keys may be put in in either order. -/
theorem insertMember_comm {other : String} (h : key ≠ other) (value w : Json) (members : List (String × Json)) :
    insertMember key value (insertMember other w members) = insertMember other w (insertMember key value members) := by
  obtain hlt | heq | hgt := Std.lt_trichotomy key other
  · exact insertMember_comm_of_lt hlt value w members
  · exact absurd heq h
  · exact (insertMember_comm_of_lt hgt w value members).symm

theorem mem_of_mem_insertMember {member : String × Json} (h : member ∈ insertMember key value members) :
    member = (key, value) ∨ member ∈ members := by
  induction members with
  | nil => exact .inl (List.mem_singleton.mp h)
  | cons first rest ih =>
    rw [insertMember] at h
    split at h
    · exact List.mem_cons.mp h
    · split at h
      · rcases List.mem_cons.mp h with rfl | h
        · exact .inl rfl
        · exact .inr (List.mem_cons_of_mem _ h)
      · rcases List.mem_cons.mp h with rfl | h
        · exact .inr List.mem_cons_self
        · exact (ih h).imp_right (List.mem_cons_of_mem _)

theorem InKeyOrder.insertMember (h : InKeyOrder members) (key : String) (value : Json) :
    InKeyOrder (insertMember key value members) := by
  induction members with
  | nil => exact List.pairwise_singleton _ _
  | cons first rest ih =>
    obtain ⟨k, v⟩ := first
    obtain ⟨hfirst, hrest⟩ := List.pairwise_cons.mp h
    obtain hlt | rfl | hgt := Std.lt_trichotomy key k
    · rw [insertMember_of_lt hlt]
      refine .cons (fun member hmember => ?_) h
      rcases List.mem_cons.mp hmember with rfl | hmember
      · exact hlt
      · exact String.lt_trans hlt (hfirst member hmember)
    · rw [insertMember_same]
      exact .cons hfirst hrest
    · rw [insertMember_of_gt hgt]
      refine .cons (fun member hmember => ?_) (ih hrest)
      rcases mem_of_mem_insertMember hmember with rfl | hmember
      · exact hgt
      · exact hfirst member hmember

/-- A member whose key comes after all others goes to the end. -/
theorem insertMember_of_inKeyOrder (h : InKeyOrder (members ++ [(key, value)])) :
    insertMember key value members = members ++ [(key, value)] := by
  induction members with
  | nil => rfl
  | cons first rest ih =>
    obtain ⟨k, v⟩ := first
    obtain ⟨hfirst, hrest⟩ := List.pairwise_cons.mp h
    have hlt : k < key := hfirst (key, value) (by simp)
    rw [List.cons_append, insertMember_of_gt hlt, ih hrest]

theorem ofMembers_of_inKeyOrder (h : InKeyOrder members) : ofMembers members = .object members := by
  have hfold (before after : List (String × Json)) (h : InKeyOrder (before ++ after)) :
      after.foldl (fun sorted member => insertMember member.1 member.2 sorted) before = before ++ after := by
    induction after generalizing before with
    | nil => exact (List.append_nil before).symm
    | cons member after ih =>
      obtain ⟨k, v⟩ := member
      have hsplit : before ++ (k, v) :: after = (before ++ [(k, v)]) ++ after := by simp
      rw [hsplit] at h ⊢
      rw [List.foldl_cons, insertMember_of_inKeyOrder (List.pairwise_append.mp h).1, ih _ h]
  exact congrArg Json.object (hfold [] members h)

/-- What an object has under a key is what the last member with this key has. -/
theorem lookup_foldl_insertMember (members sorted : List (String × Json)) (key : String) :
    (members.foldl (fun sorted (k, v) => insertMember k v sorted) sorted).lookup key =
      (members.reverse ++ sorted).lookup key := by
  induction members generalizing sorted with
  | nil => rfl
  | cons member rest ih =>
    obtain ⟨k, v⟩ := member
    rw [List.foldl_cons, ih, List.reverse_cons, List.append_assoc, List.lookup_append, List.lookup_append,
      List.singleton_append, lookup_member_cons, lookup_insertMember]

/-- Members in any order become members in key order, each of which was there. -/
theorem ofMembers_eq_object (members : List (String × Json)) :
    ∃ sorted, ofMembers members = .object sorted ∧ InKeyOrder sorted ∧ ∀ member ∈ sorted, member ∈ members := by
  have hfold (sorted : List (String × Json)) (h : InKeyOrder sorted) :
      InKeyOrder (members.foldl (fun sorted (k, v) => insertMember k v sorted) sorted) ∧
      ∀ member ∈ members.foldl (fun sorted (k, v) => insertMember k v sorted) sorted,
        member ∈ sorted ∨ member ∈ members := by
    induction members generalizing sorted with
    | nil => exact ⟨h, fun member hmember => .inl hmember⟩
    | cons member rest ih =>
      obtain ⟨k, v⟩ := member
      obtain ⟨hordered, hall⟩ := ih (insertMember k v sorted) (h.insertMember k v)
      refine ⟨hordered, fun other hother => ?_⟩
      obtain hsorted | hrest := hall other hother
      · obtain rfl | hsorted := mem_of_mem_insertMember hsorted
        · exact .inr List.mem_cons_self
        · exact .inl hsorted
      · exact .inr (List.mem_cons_of_mem _ hrest)
  obtain ⟨hordered, hall⟩ := hfold [] List.Pairwise.nil
  exact ⟨_, rfl, hordered, fun member hmember => (hall member hmember).resolve_left List.not_mem_nil⟩

end BatchExport.Json
