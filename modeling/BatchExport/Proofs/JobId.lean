import BatchExport.Execution
import BatchExport.Proofs.StatusRecord
import BatchExport.Proofs.Text.Blank

/-! Names of jobs. Main statement: a name is proper wherever it comes from, except from a status record, which takes any
text as it stands. -/
namespace BatchExport

namespace JobId

variable {raw : String} {id : JobId}

/-- Not blank, and no white space at either end. -/
structure IsProper (id : JobId) : Prop where
  named : Text.isBlank id.text = false
  trimmed : Text.IsTrim id.text.toList

theorem ofText?_eq_some_iff : ofText? raw = some id ↔ Text.isBlank raw = false ∧ Text.trim raw = id.text := by
  obtain ⟨text⟩ := id
  rw [ofText?, Bool.eq_false_iff, Ne, ← Text.trim_eq_empty_iff, ← String.isEmpty_iff]
  by_cases hempty : (Text.trim raw).isEmpty = true
  · simp [hempty]
  · simp [hempty]

theorem isProper_iff : id.IsProper ↔ ofText? id.text = some id := by
  rw [ofText?_eq_some_iff, Text.trim_eq_self_iff]
  exact ⟨fun h => ⟨h.named, h.trimmed⟩, fun h => ⟨h.1, h.2⟩⟩

theorem isProper_of_isTrim (hne : id.text ≠ "") (h : Text.IsTrim id.text.toList) : id.IsProper where
  named := by rwa [Bool.eq_false_iff, Ne, ← Text.trim_eq_empty_iff, Text.trim_eq_self_iff.mpr h]
  trimmed := h

/-- Trimming once is enough. -/
theorem isProper_of_ofText? (h : ofText? raw = some id) : id.IsProper := by
  obtain ⟨hnamed, htrim⟩ := ofText?_eq_some_iff.mp h
  apply isProper_of_isTrim
  · rwa [Bool.eq_false_iff, Ne, ← Text.trim_eq_empty_iff, htrim] at hnamed
  · exact htrim ▸ Text.isTrim_trim raw

private theorem isBlankChar_hexDigit : ∀ n < 16, Text.isBlankChar (Text.hexDigit n) = false := by
  decide

/-- There is no white space in a generated name. -/
theorem isBlankChar_ofBits (bits : Nat) : ∀ c ∈ (ofBits bits).text.toList, Text.isBlankChar c = false := by
  have hdigit (n : Nat) : Text.isBlankChar (Text.hexDigit (n % 16)) = false :=
    isBlankChar_hexDigit _ (Nat.mod_lt n (by decide))
  have hvariant (n : Nat) : Text.isBlankChar (Text.hexDigit (8 + n % 4)) = false :=
    isBlankChar_hexDigit _ (by omega)
  have hhyphen : Text.isBlankChar '-' = false := by decide
  have hfour : Text.isBlankChar '4' = false := by decide
  simp [ofBits, Text.joinWith, or_imp, forall_and, hdigit, hvariant, hhyphen, hfour]

theorem isProper_ofBits (bits : Nat) : (ofBits bits).IsProper := by
  apply isProper_of_isTrim
  · simp [ofBits, Text.joinWith]
  · exact Text.isTrim_of_solid (isBlankChar_ofBits bits)

end JobId

namespace Json

variable {α : Type} {f : Fields} {key : String} {read : Json → Option α} {names : List String} {j : Json}

/-- The same members but for the text under one key. -/
def Fields.put (f : Fields) (key text : String) : Fields :=
  { f with get := fun other => if other = key then some (.string text) else f.get other }

theorem Fields.get_put (f : Fields) (key text other : String) :
    (f.put key text).get other = if other = key then some (.string text) else f.get other := rfl

theorem Fields.required_put (f : Fields) (text : String) {other : String} (h : other ≠ key) :
    (f.put key text).required other read = f.required other read := by
  rw [required, get_put, if_neg h, required]

theorem Fields.nullable_put (f : Fields) (text : String) {other : String} (h : other ≠ key) :
    (f.put key text).nullable other read = f.nullable other read := by
  rw [nullable, get_put, if_neg h]
  rfl

/-- The record with another text as the field that is listed first. -/
def putFirst (key text : String) : Json → Json
  | .object members => .object (insertMember key (.string text) members)
  | .array (_ :: rest) => .array (.string text :: rest)
  | j => j

theorem fields?_putFirst {dialect : Dialect} (text : String) (h : j.fields? dialect (key :: names) = some f)
    (hkey : f.get key ≠ none) : (j.putFirst key text).fields? dialect (key :: names) = some (f.put key text) := by
  cases j with
  | object members =>
    obtain rfl := Option.some.inj h
    rw [putFirst, fields?, Fields.put]
    congr
    funext other
    exact lookup_insertMember key other (.string text) members
  | array items =>
    cases items with
    | nil =>
      obtain rfl : _ = f := by simpa [fields?] using h
      exact absurd rfl hkey
    | cons item rest =>
      rw [fields?] at h
      split at h
      · cases h
      · obtain rfl := Option.some.inj h
        rw [putFirst, fields?, if_neg ‹_›, Fields.put]
        congr
        funext other
        dsimp only
        rw [List.zip_cons_cons, List.zip_cons_cons, lookup_member_cons, lookup_member_cons]
        split <;> rfl
  | null | bool _ | number _ | string _ => cases h

end Json

namespace StatusRecord

variable {j : Json} {r : StatusRecord}

/-- Any text can take the place of a record's name. -/
theorem ofJson?_putFirst (text : String) (h : ofJson? j = some r) :
    ofJson? (j.putFirst "id" text) = some { r with id := ⟨text⟩ } := by
  obtain ⟨f, hf, hread⟩ := ofJson?_eq_some_iff.mp h
  have hgiven : f.get "id" ≠ none := by
    intro hnone
    have hid := hread.id
    rw [Json.Fields.required, hnone] at hid
    cases hid
  exact ofJson?_eq_some_iff.mpr ⟨f.put "id" text, Json.fields?_putFirst text hf hgiven, {
    id := by
      rw [Json.Fields.required, Json.Fields.get_put, if_pos rfl]
      rfl
    created := (f.nullable_put text (by decide)).trans hread.created
    started := (f.nullable_put text (by decide)).trans hread.started
    ended := (f.nullable_put text (by decide)).trans hread.ended
    updated := (f.required_put text (by decide)).trans hread.updated
    status := (f.required_put text (by decide)).trans hread.status
    exit := (f.required_put text (by decide)).trans hread.exit
    files := (f.required_put text (by decide)).trans hread.files
    errorDetails := (f.nullable_put text (by decide)).trans hread.errorDetails
    description := (f.nullable_put text (by decide)).trans hread.description }⟩

end StatusRecord

namespace JobId

/-- Where the name of a job comes from. -/
inductive Origin
  | text (raw : String)
  | parameters (p : JobParameters)
  | bits (bits : Nat)
  | record (j : Json)

namespace Origin

def id? : Origin → Option JobId
  | text raw => ofText? raw
  | parameters p => p.jobId?
  | bits n => some (ofBits n)
  | record j => (StatusRecord.ofJson? j).map (·.id)

/-- The text that becomes a name without a check. -/
def unchecked? : Origin → Option String
  | record (.object members) => members.lookup "id" >>= Json.text?
  | record (.array (item :: _)) => item.text?
  | _ => none

variable {id : JobId} {o : Origin} {j : Json}

/-- A status record's name is the text that the record has. -/
theorem unchecked?_record (h : (record j).id? = some id) : (record j).unchecked? = some id.text := by
  obtain ⟨r, hr, rfl⟩ := Option.map_eq_some_iff.mp h
  obtain ⟨f, hf, hread⟩ := StatusRecord.ofJson?_eq_some_iff.mp hr
  have htext := hread.id
  cases j with
  | object members =>
    obtain rfl := Option.some.inj hf
    exact htext
  | array items =>
    rw [Json.fields?] at hf
    split at hf
    · cases hf
    · obtain rfl := Option.some.inj hf
      cases items with
      | nil => cases htext
      | cons item rest => exact htext
  | null | bool _ | number _ | string _ => cases hf

/-- Every other way checks the name. -/
theorem isProper_of_unchecked?_none (h : o.id? = some id) (hnone : o.unchecked? = none) : id.IsProper := by
  cases o with
  | text raw => exact isProper_of_ofText? h
  | parameters p =>
    obtain ⟨raw, -, hraw⟩ := Option.bind_eq_some_iff.mp h
    exact isProper_of_ofText? hraw
  | bits n =>
    obtain rfl := Option.some.inj h
    exact isProper_ofBits n
  | record j =>
    rw [unchecked?_record h] at hnone
    cases hnone

theorem text_of_unchecked? (h : o.id? = some id) : ∀ text ∈ o.unchecked?, id = ⟨text⟩ := by
  intro text htext
  cases o with
  | record j =>
    obtain rfl := Option.some.inj ((unchecked?_record h).symm.trans htext)
    rfl
  | text _ | parameters _ | bits _ => cases htext

/-- A name can be given again as it stands exactly if it is neither blank nor has white space around it. So it is with
all names but those of status records: there it is so exactly if it is so with the text that the record has, which can be
any text at all. -/
theorem given_again_iff (h : o.id? = some id) :
    (ofText? id.text = some id ↔ id.IsProper) ∧
    (id.IsProper ↔ ∀ text ∈ o.unchecked?, JobId.IsProper ⟨text⟩) ∧
    (∀ text ∈ o.unchecked?, id = ⟨text⟩) ∧
    ∀ j, o = record j → ∀ text, (record (j.putFirst "id" text)).id? = some ⟨text⟩ := by
  refine ⟨isProper_iff.symm, ⟨?_, ?_⟩, text_of_unchecked? h, ?_⟩
  · intro hproper text htext
    rwa [← text_of_unchecked? h text htext]
  · intro hall
    cases hunchecked : o.unchecked? with
    | none => exact isProper_of_unchecked?_none h hunchecked
    | some text =>
      rw [text_of_unchecked? h text hunchecked]
      exact hall text hunchecked
  · rintro j rfl text
    obtain ⟨r, hr, -⟩ := Option.map_eq_some_iff.mp h
    rw [id?, StatusRecord.ofJson?_putFirst text hr]
    rfl

namespace Decoded

/-- A record of a job that has ended, with this text for a name. -/
def ended (text : String) : Json := .object [
  ("batchStatus", .string "COMPLETED"), ("createdDate", .null), ("endTime", .null),
  ("exitStatus", .object [("exitCode", .string "COMPLETED"), ("exitDescription", .string "")]),
  ("files", .array []), ("id", .string text), ("startTime", .null), ("updatedDate", .string "2024-01-01T00:00:00Z")]

theorem id?_ended : (record (ended "J1")).id? = some ⟨"J1"⟩ := by decide

theorem proper_text_is_given_again : ofText? "J1" = some ⟨"J1"⟩ ∧
    ∀ text, (record ((ended "J1").putFirst "id" text)).id? = some ⟨text⟩ := by
  obtain ⟨hagain, hproper, -, hany⟩ := given_again_iff id?_ended
  refine ⟨hagain.mpr (hproper.mpr fun text htext => ?_), hany _ rfl⟩
  obtain rfl := Option.some.inj htext
  exact isProper_iff.mpr (by decide)

theorem improper_texts_are_taken :
    ((record (ended "  ")).id? = some ⟨"  "⟩ ∧ ofText? "  " = none) ∧
    ((record (ended " J1 ")).id? = some ⟨" J1 "⟩ ∧ ofText? " J1 " = some ⟨"J1"⟩) := by
  decide

end Decoded

end Origin

end JobId
end BatchExport
