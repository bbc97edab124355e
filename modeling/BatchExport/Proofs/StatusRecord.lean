import BatchExport.Proofs.Json.RoundTrip
import BatchExport.Proofs.Time.Instant
import BatchExport.StatusRecord

/-! Status records on the wire. Main statement: a record whose times can be written is read back from its wire form, as a
value and as a text. -/
namespace BatchExport

namespace Json

variable {α : Type} {f : Fields} {key : String} {read : Json → Option α}

theorem fields?_ofMembers (dialect : Dialect) (names : List String) (members : List (String × Json)) :
    (ofMembers members).fields? dialect names = some ⟨true, fun key => members.reverse.lookup key⟩ := by
  rw [ofMembers, fields?]
  congr
  funext key
  rw [lookup_foldl_insertMember, List.append_nil]

theorem Fields.required_of_get {v : Json} {a : α} (hget : f.get key = some v) (hread : read v = some a) :
    f.required key read = some a := by
  rw [required, hget]
  exact hread

theorem Fields.nullable_of_text {text : String} (hget : f.get key = some (.string text)) :
    f.nullable key read = (read (.string text)).map some := by
  rw [nullable, hget]

theorem Fields.nullable_of_null (hget : f.get key = some .null) : f.nullable key read = some none := by
  rw [nullable, hget]

/-- A text that is left out where there is none. -/
theorem Fields.nullable_of_omitted {text? : Option String} (hnamed : f.named = true)
    (hget : f.get key = text?.map .string) : f.nullable key Json.text? = some text? := by
  cases text? with
  | none => rw [nullable, hget, Option.map_none, if_pos hnamed]
  | some text => rw [nullable_of_text hget, Json.text?, Option.map_some]

theorem list?_texts (texts : List String) : list? text? (.array (texts.map .string)) = some texts := by
  rw [list?, items?, Option.bind_eq_bind, Option.bind_some]
  induction texts with
  | nil => rfl
  | cons text texts ih =>
    rw [List.map_cons, List.mapM_cons, ih]
    rfl

end Json

namespace StatusRecord

variable {r : StatusRecord} {j : Json}

/-- The names of the fields, in the order of a listed record. -/
def fieldNames : List String :=
  ["id", "createdDate", "startTime", "endTime", "updatedDate", "batchStatus", "exitStatus", "files", "errorDetails",
    "description"]

/-- Each field of the record is what its member is read as. -/
structure IsReadFrom (r : StatusRecord) (f : Json.Fields) : Prop where
  id : f.required "id" Json.text? = some r.id.text
  created : f.nullable "createdDate" readInstant = some r.created
  started : f.nullable "startTime" readInstant = some r.started
  ended : f.nullable "endTime" readInstant = some r.ended
  updated : f.required "updatedDate" readInstant = some r.updated
  status : f.required "batchStatus" readStatus = some r.status
  exit : f.required "exitStatus" readExit = some r.exit
  files : f.required "files" (Json.list? Json.text?) = some r.files
  errorDetails : f.nullable "errorDetails" Json.text? = some r.errorDetails
  description : f.nullable "description" Json.text? = some r.description

theorem ofJson?_eq_some_iff : ofJson? j = some r ↔ ∃ f, j.fields? .json fieldNames = some f ∧ r.IsReadFrom f := by
  constructor
  · intro h
    simp only [ofJson?, Option.bind_eq_bind, Option.bind_eq_some_iff] at h
    obtain ⟨f, hf, id, hid, created, hcreated, started, hstarted, ended, hended, updated, hupdated, status, hstatus,
      exit, hexit, files, hfiles, errorDetails, herrorDetails, description, hdescription, hr⟩ := h
    obtain rfl := Option.some.inj hr
    exact ⟨f, hf, hid, hcreated, hstarted, hended, hupdated, hstatus, hexit, hfiles, herrorDetails, hdescription⟩
  · intro ⟨f, hf, h⟩
    rw [ofJson?]
    apply goes_on hf
    apply goes_on h.id
    apply goes_on h.created
    apply goes_on h.started
    apply goes_on h.ended
    apply goes_on h.updated
    apply goes_on h.status
    apply goes_on h.exit
    apply goes_on h.files
    apply goes_on h.errorDetails
    apply goes_on h.description
    rfl

/-- All times of the record can be written. -/
structure IsOrdinary (r : StatusRecord) : Prop where
  created : ∀ t ∈ r.created, t.IsOrdinary
  started : ∀ t ∈ r.started, t.IsOrdinary
  ended : ∀ t ∈ r.ended, t.IsOrdinary
  updated : r.updated.IsOrdinary

/-- The members that stand for the record. Times that are not there are null, and texts that are not there are left
out. -/
structure IsWritten (r : StatusRecord) (members : List (String × Json)) : Prop where
  id : members.lookup "id" = some (.string r.id.text)
  created : members.lookup "createdDate" = some (.ofOption (fun t => .string t.render) r.created)
  started : members.lookup "startTime" = some (.ofOption (fun t => .string t.render) r.started)
  ended : members.lookup "endTime" = some (.ofOption (fun t => .string t.render) r.ended)
  updated : members.lookup "updatedDate" = some (.string r.updated.render)
  status : members.lookup "batchStatus" = some (.string r.status.name)
  exit : members.lookup "exitStatus" = some (.ofMembers [
    ("exitCode", .string r.exit.code), ("exitDescription", .string r.exit.description)])
  files : members.lookup "files" = some (.array (r.files.map .string))
  errorDetails : members.lookup "errorDetails" = r.errorDetails.map .string
  description : members.lookup "description" = r.description.map .string

/-- The members of the wire form in the order of the fields. -/
def wireMembers (r : StatusRecord) : List (String × Json) :=
  let time (t : Instant) : Json := .string t.render
  let optional (key : String) (value : Option String) : List (String × Json) :=
    value.toList.map fun v => (key, .string v)
  [ ("id", .string r.id.text),
    ("createdDate", .ofOption time r.created),
    ("startTime", .ofOption time r.started),
    ("endTime", .ofOption time r.ended),
    ("updatedDate", time r.updated),
    ("batchStatus", .string r.status.name),
    ("exitStatus", .ofMembers [
      ("exitCode", .string r.exit.code), ("exitDescription", .string r.exit.description)]),
    ("files", .array (r.files.map .string)) ] ++
  optional "errorDetails" r.errorDetails ++ optional "description" r.description

theorem toJson_eq (r : StatusRecord) : r.toJson = .ofMembers r.wireMembers := rfl

theorem isWritten_wireMembers (r : StatusRecord) : r.IsWritten r.wireMembers.reverse := by
  obtain ⟨id, created, started, ended, updated, status, exit, files, errorDetails, description⟩ := r
  cases errorDetails <;> cases description <;> constructor <;> simp [wireMembers, List.lookup_cons]

theorem IsWritten.congr {members sorted : List (String × Json)} (h : r.IsWritten members)
    (hsame : ∀ key, sorted.lookup key = members.lookup key) : r.IsWritten sorted where
  id := (hsame _).trans h.id
  created := (hsame _).trans h.created
  started := (hsame _).trans h.started
  ended := (hsame _).trans h.ended
  updated := (hsame _).trans h.updated
  status := (hsame _).trans h.status
  exit := (hsame _).trans h.exit
  files := (hsame _).trans h.files
  errorDetails := (hsame _).trans h.errorDetails
  description := (hsame _).trans h.description

theorem exists_isWritten (r : StatusRecord) : ∃ members, r.toJson = .object members ∧ r.IsWritten members := by
  refine ⟨_, rfl, r.isWritten_wireMembers.congr fun key => ?_⟩
  rw [Json.lookup_foldl_insertMember, List.append_nil]
  rfl

theorem readExit_written (code description : String) :
    readExit (.ofMembers [("exitCode", .string code), ("exitDescription", .string description)]) =
      some ⟨code, description⟩ := by
  rw [readExit, Json.fields?_ofMembers]
  rfl

theorem readInstant_written {t : Instant} (h : t.IsOrdinary) : readInstant (.string t.render) = some t := by
  rw [readInstant, Json.text?, Option.bind_eq_bind, Option.bind_some, h.parse?_render]

theorem nullable_written {f : Json.Fields} {key : String} {time? : Option Instant}
    (hget : f.get key = some (.ofOption (fun t => .string t.render) time?)) (h : ∀ t ∈ time?, t.IsOrdinary) :
    f.nullable key readInstant = some time? := by
  cases time? with
  | none => exact Json.Fields.nullable_of_null hget
  | some t => rw [Json.Fields.nullable_of_text hget, readInstant_written (h t rfl), Option.map_some]

theorem readStatus_written (s : BatchStatus) : readStatus (.string s.name) = some s := by
  rw [readStatus, Json.name?, Option.bind_eq_bind, Option.bind_some, BatchStatus.ofName?_name]

/-- Neither the order of the members nor other members matter. -/
theorem IsWritten.read {members : List (String × Json)} (hr : r.IsOrdinary) (h : r.IsWritten members) :
    ofJson? (.object members) = some r :=
  ofJson?_eq_some_iff.mpr ⟨⟨true, fun key => members.lookup key⟩, rfl, {
    id := Json.Fields.required_of_get h.id rfl
    created := nullable_written h.created hr.created
    started := nullable_written h.started hr.started
    ended := nullable_written h.ended hr.ended
    updated := Json.Fields.required_of_get h.updated (readInstant_written hr.updated)
    status := Json.Fields.required_of_get h.status (readStatus_written r.status)
    exit := Json.Fields.required_of_get h.exit (readExit_written _ _)
    files := Json.Fields.required_of_get h.files (Json.list?_texts r.files)
    errorDetails := Json.Fields.nullable_of_omitted rfl h.errorDetails
    description := Json.Fields.nullable_of_omitted rfl h.description }⟩

section Text

theorem itemsNesting_texts (texts : List String) : Json.itemsNesting (texts.map .string) = 0 := by
  induction texts with
  | nil => rfl
  | cons text texts ih =>
    rw [List.map_cons, Json.itemsNesting, ih]
    rfl

/-- Neither numbers nor deep nesting. -/
theorem wireMembers_isPlain (r : StatusRecord) : ∀ member ∈ r.wireMembers, member.2.IsPlain ∧ member.2.nesting ≤ 1 := by
  have hstring (s : String) : (Json.string s).IsPlain ∧ (Json.string s).nesting ≤ 1 := ⟨.string s, Nat.zero_le 1⟩
  have htime (t? : Option Instant) : (Json.ofOption (fun t => .string t.render) t?).IsPlain ∧
      (Json.ofOption (fun t : Instant => .string t.render) t?).nesting ≤ 1 := by
    cases t? with
    | none => exact ⟨.null, Nat.zero_le 1⟩
    | some t => exact hstring t.render
  have hexit : ∀ member ∈ [("exitCode", Json.string r.exit.code), ("exitDescription", .string r.exit.description)],
      member.2.IsPlain ∧ member.2.nesting ≤ 0 := by
    intro member hmember
    simp only [List.mem_cons, List.not_mem_nil, or_false] at hmember
    obtain rfl | rfl := hmember
    · exact ⟨.string _, Nat.le_refl 0⟩
    · exact ⟨.string _, Nat.le_refl 0⟩
  intro member hmember
  simp only [wireMembers, List.mem_append, List.mem_cons, List.not_mem_nil, or_false, List.mem_map] at hmember
  obtain (hmember | ⟨v, -, rfl⟩) | ⟨v, -, rfl⟩ := hmember
  · obtain rfl | rfl | rfl | rfl | rfl | rfl | rfl | rfl := hmember
    · exact hstring _
    · exact htime _
    · exact htime _
    · exact htime _
    · exact hstring _
    · exact hstring _
    · exact ⟨Json.isPlain_ofMembers fun member hmember => (hexit member hmember).1,
        Json.nesting_ofMembers_le fun member hmember => (hexit member hmember).2⟩
    · refine ⟨.array _ fun item hitem => ?_, Nat.succ_le_succ (Nat.le_of_eq (itemsNesting_texts r.files))⟩
      obtain ⟨file, -, rfl⟩ := List.mem_map.mp hitem
      exact .string file
  · exact hstring v
  · exact hstring v

/-- The text of the wire form holds the wire form. -/
theorem parse?_render (r : StatusRecord) : Json.parse? r.toJson.render = some r.toJson := by
  have hplain := Json.isPlain_ofMembers fun member hmember => (r.wireMembers_isPlain member hmember).1
  have hnesting := Json.nesting_ofMembers_le fun member hmember => (r.wireMembers_isPlain member hmember).2
  rw [Json.parse?, Json.render, String.toList_ofList, toJson_eq]
  apply Json.parseChars?_write hplain
  omega

end Text

/-- The wire form of a record has all that belongs to it under the names of its members. From any object that has, in
whatever order and with whatever else, the record is read, so also from the wire form itself and from its text; and a
record that was read from any value is the one that is read from its own wire form. -/
theorem records_survive_wire (r : StatusRecord) (h : r.IsOrdinary) :
    (∃ members, r.toJson = .object members ∧ r.IsWritten members) ∧
    (∀ members, r.IsWritten members → ofJson? (.object members) = some r) ∧
    ofJson? r.toJson = some r ∧
    (Json.parse? r.toJson.render >>= ofJson?) = some r ∧
    ∀ j, ofJson? j = some r → (ofJson? j >>= fun decoded => ofJson? decoded.toJson) = ofJson? j := by
  have hread : ofJson? r.toJson = some r := by
    obtain ⟨members, heq, hwritten⟩ := r.exists_isWritten
    rw [heq]
    exact hwritten.read h
  refine ⟨r.exists_isWritten, fun members hwritten => hwritten.read h, hread, goes_on r.parse?_render hread, ?_⟩
  intro j hj
  rw [hj]
  exact hread

namespace Farthest

/-- The first and the last nanosecond that four digits are enough for, and empty texts that are not left out. -/
def record : StatusRecord where
  id := ⟨" \"J1\" "⟩
  created := some ⟨-62167219200, 0⟩
  started := some ⟨951825600, 500000000⟩
  ended := none
  updated := ⟨253402300799, 999999999⟩
  status := .stopping
  exit := .failed
  files := ["out/J1.jsonl", ""]
  errorDetails := none
  description := some ""

theorem isOrdinary_record : record.IsOrdinary where
  created := by
    rintro _ ⟨⟩
    exact ⟨by decide, by decide, by decide⟩
  started := by
    rintro _ ⟨⟩
    exact ⟨by decide, by decide, by decide⟩
  ended := by
    rintro _ ⟨⟩
  updated := ⟨by decide, by decide, by decide⟩

/-- The fields in a list, with times of another offset. -/
def listed : Json := .array [
  .string " \"J1\" ", .string "0000-01-01T00:30:00+00:30", .string "2000-02-29t12:00:00.5z", .null,
  .string "9999-12-31T12:59:59.999999999-11:00", .object [("STOPPING", .null)], .array [.string "FAILED", .string ""],
  .array [.string "out/J1.jsonl", .string ""], .null, .string ""]

theorem ofJson?_listed : ofJson? listed = some record := by decide

theorem farthest_record_survives_wire : record.IsOrdinary ∧ ofJson? listed = some record ∧
    (ofJson? listed >>= fun decoded => ofJson? decoded.toJson) = ofJson? listed ∧
    (Json.parse? record.toJson.render >>= ofJson?) = some record := by
  obtain ⟨-, -, -, htext, hagain⟩ := records_survive_wire record isOrdinary_record
  exact ⟨isOrdinary_record, ofJson?_listed, hagain listed ofJson?_listed, htext⟩

end Farthest

end StatusRecord
end BatchExport
