import BatchExport.Files.Staged
import BatchExport.Files.WorkPath
import BatchExport.Proofs.Effect
import BatchExport.Proofs.Files.Tree
import BatchExport.Proofs.Json.Printer
import BatchExport.Proofs.Text.Pieces

/-! What is in staged files, in spite of the buffers. Main statements: what is pushed comes after what was there, and
after a flush the file has it all. -/
namespace BatchExport

namespace StagedFile

variable {f : StagedFile} {t : FileTree} {text more : List Char}

/-- The file and the buffer behind it make up the text. -/
def Holds (f : StagedFile) (t : FileTree) (text : List Char) : Prop :=
  ∃ sent, t.textAt? f.location = some sent ∧ sent.length = f.position ∧ sent ++ f.buffer = text

theorem Holds.other {t' : FileTree} {location : Location} (h : f.Holds t text) (ht : FileTree.Touches location t t')
    (hne : f.location ≠ location) : f.Holds t' text := by
  obtain ⟨sent, htext, hrest⟩ := h
  exact ⟨sent, by rw [ht.elsewhere _ hne, htext], hrest⟩

theorem flush_spec (h : f.Holds t text) :
    (f.flush t).1.Holds (f.flush t).2 text ∧ (f.flush t).1.location = f.location ∧
      FileTree.Sets f.location text t (f.flush t).2 := by
  obtain ⟨sent, hsent, hposition, rfl⟩ := h
  have hset : FileTree.Sets f.location (sent ++ f.buffer) t (f.flush t).2 := by
    rw [flush, ← hposition]
    exact FileTree.writeAt_end hsent f.buffer
  exact ⟨⟨sent ++ f.buffer, hset.here, by simp [flush, hposition], by simp [flush]⟩, rfl, hset⟩

private theorem byteSize_eq_zero {cs : List Char} (h : byteSize cs = 0) : cs = [] := by
  cases cs with
  | nil => rfl
  | cons c cs =>
    have hc : 0 < c.utf8Size := c.utf8Size_pos
    rw [byteSize, List.foldr_cons] at h
    omega

/-- What is left to do when there is room. -/
private def put (more : List Char) (p : StagedFile × FileTree) : StagedFile × FileTree :=
  if byteSize more ≥ bufferSize then
    ({ p.1 with position := p.1.position + more.length }, p.2.writeAt p.1.location p.1.position more)
  else ({ p.1 with buffer := p.1.buffer ++ more }, p.2)

private theorem put_spec (more : List Char) (h : f.Holds t text) (hempty : byteSize more ≥ bufferSize → f.buffer = []) :
    (put more (f, t)).1.Holds (put more (f, t)).2 (text ++ more) ∧ (put more (f, t)).1.location = f.location ∧
      FileTree.Touches f.location t (put more (f, t)).2 := by
  obtain ⟨sent, hsent, hposition, rfl⟩ := h
  rw [put]
  split
  · have hset := FileTree.writeAt_end hsent more
    rw [hposition] at hset
    rw [hempty ‹_›, List.append_nil]
    exact ⟨⟨sent ++ more, hset.here, by simp [hposition], by simp [hempty ‹_›]⟩, rfl, hset.toTouches⟩
  · exact ⟨⟨sent, hsent, hposition, by simp⟩, rfl, .refl f.location t⟩

/-- A text that goes around the buffer finds it empty. -/
theorem push_spec (more : List Char) (h : f.Holds t text) :
    (f.push more t).1.Holds (f.push more t).2 (text ++ more) ∧ (f.push more t).1.location = f.location ∧
      FileTree.Touches f.location t (f.push more t).2 := by
  have hpush : f.push more t =
      put more (if byteSize f.buffer + byteSize more > bufferSize then f.flush t else (f, t)) := rfl
  rw [hpush]
  split
  · obtain ⟨hholds, hlocation, hset⟩ := flush_spec h
    obtain ⟨hholds', hlocation', htouches⟩ := put_spec more hholds fun _ => rfl
    rw [hlocation] at hlocation' htouches
    exact ⟨hholds', hlocation', hset.toTouches.trans htouches⟩
  · refine put_spec more h fun hlarge => byteSize_eq_zero ?_
    omega

end StagedFile

namespace WorkPath

/-- The pieces above what the names of staged files start with. -/
def base (temp : String) : List Path.Piece := (Path.pieces temp).dropLast

/-- The file name that a suffix makes. -/
def nameWith (temp suffix : String) : Path.Piece := (Path.pieces temp).getLastD [] ++ suffix.toList

theorem endsIn_records (temp : String) : Path.EndsIn (records temp) (base temp) (nameWith temp recordsSuffix) :=
  Path.endsIn_suffix temp (by decide) (by decide)

theorem endsIn_errors (temp : String) : Path.EndsIn (errors temp) (base temp) (nameWith temp errorsSuffix) :=
  Path.endsIn_suffix temp (by decide) (by decide)

/-- The file name that a suffix makes, as an entry of a directory. -/
def entry (temp suffix : String) : String := String.ofList (nameWith temp suffix)

theorem entry_ne (temp : String) : entry temp recordsSuffix ≠ entry temp errorsSuffix := by
  intro h
  have hsuffix : recordsSuffix.toList = errorsSuffix.toList := List.append_cancel_left (String.ofList_injective h)
  revert hsuffix
  decide

/-- In whatever directories they are, the two files are not the same one. -/
theorem append_entry_ne (temp : String) {dir dir' : Location} :
    dir ++ [entry temp errorsSuffix] ≠ dir' ++ [entry temp recordsSuffix] := by
  intro h
  exact entry_ne temp (List.singleton_inj.mp (List.append_inj_right' h rfl)).symm

end WorkPath

/-- The directory in which an export stages its files, and the tree when it has just been made. -/
structure StagingArea (temp : String) where
  tree : FileTree
  dir : Location
  walk : (WorkPath.base temp).foldlM tree.follow (tree.start temp) = .ok dir
  isDirectory : tree.node? dir = some .directory

namespace StagingArea

variable {temp : String} (area : StagingArea temp) {t : FileTree} {location : Location}

/-- Where the file with this suffix is staged. -/
def place (suffix : String) : Location := area.dir ++ [WorkPath.entry temp suffix]

def records : Location := area.place WorkPath.recordsSuffix

def errors : Location := area.place WorkPath.errorsSuffix

theorem errors_ne_records : area.errors ≠ area.records := WorkPath.append_entry_ne temp

/-- However the tree grows, the paths of staged files lead through the same directory. -/
theorem walk_of_grows (h : area.tree.Grows t) {suffix : String} (hslash : '/' ∉ suffix.toList) :
    (WorkPath.base temp).foldlM t.follow (t.start (WorkPath.withSuffix temp suffix)) = .ok area.dir := by
  have hstart : t.start (WorkPath.withSuffix temp suffix) = area.tree.start temp :=
    (h.start _).trans (area.tree.start_suffix temp hslash)
  rw [hstart]
  exact h.walk area.walk

theorem leads_to_errors (h : area.tree.Grows t) (hl : t.locate (WorkPath.errors temp) = .ok location) :
    location = area.errors := by
  obtain ⟨dir, hwalk, rfl, -⟩ := FileTree.locate_ok (WorkPath.endsIn_errors temp) hl
  cases hwalk.symm.trans (area.walk_of_grows h (by decide))
  rfl

end StagingArea

namespace StagedOutput

variable {temp : String} {area : StagingArea temp} {o : StagedOutput} {t t' : FileTree} {written : List Json}
  {skipped : List Failure}

/-- A records file has a line for every record. -/
theorem splitAt_lines (written : List Json) :
    Text.splitAt '\n' (written.flatMap line) = written.map Json.write ++ [[]] := by
  induction written with
  | nil => rfl
  | cons record written ih =>
    have htext : (record :: written).flatMap line = record.write ++ '\n' :: written.flatMap line := by simp [line]
    rw [htext, Text.splitAt_separator, ih, Text.splitAt_of_not_mem record.newline_not_mem_write]
    rfl

/-- The errors file of these failures. -/
def errorsText (skipped : List Failure) : List Char := header ++ skipped.flatMap row

/-- A change that succeeds as a part of the worker has succeeded. -/
theorem effect_ok {α : Type} {change : FileTree.Change α} {describe : FileFault → Failure} {a : α}
    (h : (change.effect describe).run t = some (.ok a, t')) : change t = (.ok a, t') := by
  simp only [FileTree.Change.effect, Effect.run_ofStep, Option.some.injEq, Prod.mk.injEq] at h
  obtain ⟨hresult, htree⟩ := h
  cases hchange : change t with
  | mk result tree =>
    rw [hchange] at hresult htree
    cases result with
    | error fault => cases hresult
    | ok b =>
      cases hresult
      rw [← htree]

theorem open_ok {path : String} {f : StagedFile} (h : (open_ path).run t = some (.ok f, t')) :
    FileTree.create path t = (.ok f.location, t') ∧ f = ⟨f.location, 0, []⟩ := by
  obtain ⟨location, m, hcreate, hf⟩ := Effect.bind_ok h
  cases hf
  exact ⟨effect_ok hcreate, rfl⟩

/-- What was written is in the records file; what was skipped is in the errors file, which nobody has touched as long as
nothing was skipped. -/
structure Stages (area : StagingArea temp) (o : StagedOutput) (t : FileTree) (written : List Json)
    (skipped : List Failure) : Prop where
  grown : area.tree.Grows t
  errorsPath : o.errorsPath = WorkPath.errors temp
  recordsAt : o.records.location = area.records
  records : o.records.Holds t (written.flatMap line)
  errors : match o.errors with
    | none => skipped = [] ∧ t.textAt? area.errors = area.tree.textAt? area.errors
    | some f => skipped ≠ [] ∧ f.location = area.errors ∧ f.Holds t (errorsText skipped)

private theorem Stages.pushRecord (h : Stages area o t written skipped) (item : Json) :
    Stages area { o with records := (o.records.push (line item) t).1 } (o.records.push (line item) t).2
      (written ++ [item]) skipped := by
  obtain ⟨hholds, hlocation, htouches⟩ := StagedFile.push_spec (line item) h.records
  have hne : area.errors ≠ o.records.location := h.recordsAt ▸ area.errors_ne_records
  refine ⟨h.grown.trans htouches.toGrows, h.errorsPath, hlocation.trans h.recordsAt, ?_, ?_⟩
  · simpa using hholds
  · have herrors := h.errors
    dsimp only
    split
    · rw [‹o.errors = none›] at herrors
      exact ⟨herrors.1, (htouches.elsewhere _ hne).trans herrors.2⟩
    · rw [‹o.errors = some _›] at herrors
      obtain ⟨hskipped, hat, hf⟩ := herrors
      exact ⟨hskipped, hat, hf.other htouches (hat ▸ hne)⟩

private theorem Stages.pushRecords (h : Stages area o t written skipped) (items : List Json) :
    Stages area (StagedOutput.pushRecords items o t).1 (StagedOutput.pushRecords items o t).2 (written ++ items)
      skipped := by
  induction items generalizing o t written with
  | nil => rwa [List.append_nil]
  | cons item items ih =>
    have hrest := ih (h.pushRecord item)
    rwa [List.append_assoc] at hrest

theorem Stages.write (h : Stages area o t written skipped) {items : List Json} {o' : StagedOutput}
    (hrun : (StagedOutput.write items).run (o, t) = some (.ok (), o', t')) :
    Stages area o' t' (written ++ items) skipped := by
  have hpushed := h.pushRecords items
  have hresult : StagedOutput.pushRecords items o t = (o', t') := by
    simpa [StagedOutput.write, Effect.run_ofChange] using hrun
  rwa [hresult] at hpushed

/-- The errors file gets its header when the first record is skipped. -/
theorem errorsFile_ok (h : Stages area o t written skipped) {f : StagedFile} {o' : StagedOutput}
    (hrun : errorsFile.run (o, t) = some (.ok f, o', t')) :
    f.location = area.errors ∧ f.Holds t' (errorsText skipped) ∧ FileTree.Touches area.errors t t' ∧
      o' = { o with errors := some f } := by
  have herrors := h.errors
  cases hfile : o.errors with
  | some f' =>
    rw [hfile] at herrors
    obtain ⟨-, hat, hf⟩ := herrors
    simp only [errorsFile, Effect.run_ofRun, hfile, Option.some.injEq, Prod.mk.injEq, Except.ok.injEq] at hrun
    obtain ⟨rfl, rfl, rfl⟩ := hrun
    exact ⟨hat, hf, .refl _ t, by rw [← hfile]⟩
  | none =>
    rw [hfile] at herrors
    simp only [errorsFile, Effect.run_ofRun, hfile] at hrun
    obtain ⟨⟨result, t₁⟩, hopen, heq⟩ := Option.map_eq_some_iff.mp hrun
    cases result with
    | error fault => cases heq
    | ok new =>
      obtain ⟨hcreate, hnew⟩ := open_ok hopen
      obtain ⟨hlocate, hset⟩ := FileTree.create_ok (h.errorsPath ▸ WorkPath.endsIn_errors temp) hcreate
      have hat : new.location = area.errors := area.leads_to_errors h.grown (h.errorsPath ▸ hlocate)
      have hempty : new.Holds t₁ [] := ⟨[], hset.here, by rw [hnew]; rfl, by rw [hnew]; rfl⟩
      obtain ⟨hholds, hlocation, htouches⟩ := StagedFile.push_spec header hempty
      cases heq
      refine ⟨hlocation.trans hat, ?_, ?_, rfl⟩
      · rw [herrors.1]
        simpa [errorsText] using hholds
      · rw [hat] at hset htouches
        exact hset.toTouches.trans htouches

theorem Stages.writeSkipped (h : Stages area o t written skipped) {failure : Failure} {o' : StagedOutput}
    (hrun : (StagedOutput.writeSkipped failure).run (o, t) = some (.ok (), o', t')) :
    Stages area o' t' written (skipped ++ [failure]) := by
  obtain ⟨f, ⟨o₁, t₁⟩, hfile, hpush⟩ := Effect.bind_ok hrun
  obtain ⟨hat, hholds, hmade, rfl⟩ := errorsFile_ok h hfile
  cases hpush
  obtain ⟨hholds', hlocation, hpushed⟩ := StagedFile.push_spec (row failure) hholds
  have htouches : FileTree.Touches area.errors t (f.push (row failure) t₁).2 := hmade.trans (hat ▸ hpushed)
  have hrecords : o.records.location ≠ area.errors := h.recordsAt ▸ area.errors_ne_records.symm
  refine ⟨h.grown.trans htouches.toGrows, h.errorsPath, h.recordsAt, h.records.other htouches hrecords, ?_⟩
  refine ⟨by simp, hlocation.trans hat, ?_⟩
  have htext : errorsText (skipped ++ [failure]) = errorsText skipped ++ row failure := by simp [errorsText]
  rw [htext]
  exact hholds'

/-- Nothing stays behind in the buffers. -/
theorem Stages.close (h : Stages area o t written skipped) {o' : StagedOutput}
    (hrun : StagedOutput.close.run (o, t) = some (.ok (), o', t')) :
    area.tree.Grows t' ∧ t'.textAt? area.records = some (written.flatMap line) ∧
      t'.textAt? area.errors = if skipped = [] then area.tree.textAt? area.errors else some (errorsText skipped) := by
  obtain ⟨-, -, hset⟩ := StagedFile.flush_spec h.records
  rw [h.recordsAt] at hset
  have hgrown := h.grown.trans hset.toGrows
  have hsame := hset.elsewhere area.errors area.errors_ne_records
  have herrors := h.errors
  obtain ⟨recordsPath, records, errorsPath, errors⟩ := o
  cases errors with
  | none =>
    obtain ⟨rfl, htext⟩ := herrors
    cases hrun
    exact ⟨hgrown, hset.here, by rw [if_pos rfl, ← htext]; exact hsame⟩
  | some f =>
    obtain ⟨hskipped, hat, hf⟩ := herrors
    have hf' : f.Holds (records.flush t).2 (errorsText skipped) :=
      hf.other (hset.toTouches) (hat ▸ area.errors_ne_records)
    obtain ⟨-, -, hseterrors⟩ := StagedFile.flush_spec hf'
    rw [hat] at hseterrors
    cases hrun
    refine ⟨hgrown.trans hseterrors.toGrows, ?_, by rw [if_neg hskipped]; exact hseterrors.here⟩
    exact (hseterrors.elsewhere area.records area.errors_ne_records.symm).trans hset.here

/-- The directory of staged files, once it is made. -/
def withDirectory (recordsPath : String) (t : FileTree) : FileTree :=
  match Path.parent? recordsPath with
  | some dir => (FileTree.makeDirs dir t).2
  | none => t

theorem withDirectory_keeps (recordsPath : String) (t : FileTree) : t.KeepsFiles (withDirectory recordsPath t) := by
  rw [withDirectory]
  split
  · exact FileTree.makeDirs_keeps (Prod.eta _).symm
  · exact .refl t

theorem create_parts {recordsPath errorsPath : String}
    (hrun : (create recordsPath errorsPath).run t = some (.ok o, t')) :
    ∃ f, (open_ recordsPath).run (withDirectory recordsPath t) = some (.ok f, t') ∧
      o = { recordsPath, records := f, errorsPath, errors := none } := by
  rw [create] at hrun
  rw [withDirectory]
  cases hparent : Path.parent? recordsPath with
  | none =>
    rw [hparent] at hrun
    obtain ⟨f, t₁, hopen, heq⟩ := Effect.bind_ok hrun
    cases heq
    exact ⟨f, hopen, rfl⟩
  | some dir =>
    rw [hparent] at hrun
    obtain ⟨⟨⟩, t₁, hdirs, hrest⟩ := Effect.bind_ok hrun
    obtain ⟨f, t₂, hopen, heq⟩ := Effect.bind_ok hrest
    cases heq
    refine ⟨f, ?_, rfl⟩
    dsimp only
    rwa [effect_ok hdirs]

/-- An export begins with an empty records file. -/
theorem create_ok (hrun : (create (WorkPath.records temp) (WorkPath.errors temp)).run t = some (.ok o, t')) :
    ∃ area : StagingArea temp, area.tree = withDirectory (WorkPath.records temp) t ∧ Stages area o t' [] [] ∧
      area.tree.locate (WorkPath.records temp) = .ok area.records := by
  obtain ⟨f, hopen, rfl⟩ := create_parts hrun
  obtain ⟨hcreate, hf⟩ := open_ok hopen
  obtain ⟨hlocate, hset⟩ := FileTree.create_ok (WorkPath.endsIn_records temp) hcreate
  obtain ⟨dir, hwalk, hat, hdir⟩ := FileTree.locate_ok (WorkPath.endsIn_records temp) hlocate
  rw [WorkPath.records, WorkPath.withSuffix, FileTree.start_suffix _ temp (by decide)] at hwalk
  refine ⟨⟨withDirectory (WorkPath.records temp) t, dir, hwalk, hdir⟩, rfl, ?_, ?_⟩
  · refine ⟨hset.toGrows, rfl, hat, ⟨[], hset.here, by rw [hf]; rfl, by rw [hf]; rfl⟩, rfl, ?_⟩
    rw [hat] at hset
    exact hset.elsewhere _ (WorkPath.append_entry_ne temp)
  · exact hlocate.trans (congrArg Except.ok hat)

end StagedOutput
end BatchExport
