import BatchExport.Proofs.Files.Naming
import BatchExport.Proofs.Files.Staged
import BatchExport.Proofs.Files.Writing
import BatchExport.Proofs.Json.RoundTrip
import BatchExport.Proofs.Text.Csv
import Mathlib.Data.List.Forall2

/-! Staged files that are read back. Main statement: after any calls of the writer the records file holds the written
values line by line, and the errors file is the one from before, or it holds a header and a row for each failure. -/
namespace BatchExport

namespace FileTree

variable {t t' : FileTree} {path : String} {location : Location}

theorem SameDirectories.symm (h : t.SameDirectories t') : t'.SameDirectories t :=
  ⟨h.current.symm, fun location => (h.directories location).symm⟩

theorem SameDirectories.locate_iff (h : t.SameDirectories t') :
    t'.locate path = .ok location ↔ t.locate path = .ok location :=
  ⟨h.symm.grows.locate, h.grows.locate⟩

theorem eq_of_create_error {fault : FileFault} (h : create path t = (.error fault, t')) : t' = t := by
  rw [create] at h
  split at h
  · cases h
    rfl
  · cases h
    rfl
  · split at h
    · cases h
      rfl
    · split at h <;> cases h
      rfl

/-- Where a file can be made it can be made as long as the directories stay. -/
theorem create_stays (h : t.SameDirectories t') (hcreate : (create path t).1 = .ok location) :
    (create path t').1 = .ok location := by
  obtain ⟨base, name, hpath⟩ := endsIn_of_create (Prod.ext hcreate rfl)
  obtain ⟨hlocate, -⟩ := create_ok hpath (Prod.ext hcreate rfl)
  obtain ⟨dir, hwalk, -, hdir⟩ := locate_ok hpath hlocate
  rw [create_congr h hpath hwalk hdir, hcreate]

end FileTree

namespace StagedOutput

inductive Call where
  | write (items : List Json)
  | writeSkipped (failure : Failure)

namespace Call

def perform : Call → Effect (StagedOutput × FileTree) Unit
  | write items => StagedOutput.write items
  | writeSkipped failure => StagedOutput.writeSkipped failure

def items : Call → List Json
  | write items => items
  | writeSkipped _ => []

/-- The failures of the calls that have noted one. -/
def noted (calls : List Call) (answers : List (Except Failure Unit)) : List Failure :=
  (calls.zip answers).filterMap fun
    | (writeSkipped failure, .ok ()) => some failure
    | _ => none

theorem noted_cons (call : Call) (calls : List Call) (answer : Except Failure Unit)
    (answers : List (Except Failure Unit)) :
    noted (call :: calls) (answer :: answers) = noted [call] [answer] ++ noted calls answers := by
  rw [noted, noted, noted, ← List.filterMap_append]
  rfl

end Call

/-- Calls one after the other, whatever they answer, and the writer is closed. -/
def session (calls : List Call) : Effect (StagedOutput × FileTree) (List (Except Failure Unit)) := do
  let answers ← calls.mapM fun call => call.perform.attempt
  close
  return answers

/-- The fields of a row: the record and the reason, or nothing and the message. -/
def rowFields : Failure → List (List Char)
  | .partialFailure record reason => [record.toList, reason.toList]
  | other => [[], other.message.toList]

theorem row_eq (failure : Failure) : row failure = Csv.writeRow (rowFields failure) := by
  cases failure <;> rfl

theorem read?_errorsText (skipped : List Failure) :
    Csv.read? (errorsText skipped) = some (["record".toList, "error".toList] :: skipped.map rowFields) := by
  have hrows : errorsText skipped =
      (["record".toList, "error".toList] :: skipped.map rowFields).flatMap Csv.writeRow := by
    have hrow : row = fun failure => Csv.writeRow (rowFields failure) := funext row_eq
    rw [errorsText, List.flatMap_cons, List.flatMap_map, hrow, header]
  rw [hrows, Csv.read?_writeRows]
  simp only [List.forall_mem_cons, List.forall_mem_map]
  refine ⟨List.cons_ne_nil _ _, fun failure _ => ?_⟩
  cases failure <;> exact List.cons_ne_nil _ _

/-- The writer since it was made: `first` is the tree at that moment, and the records are at this place. The errors file
is made when the first failure is noted. -/
structure Wrote (first : FileTree) (place : Location) (errors : String) (o : StagedOutput) (t : FileTree)
    (written : List Json) (skipped : List Failure) : Prop where
  same : first.SameDirectories t
  errorsPath : o.errorsPath = errors
  recordsAt : o.records.location = place
  records : o.records.Holds t (written.flatMap line)
  errors : match o.errors with
    | none => skipped = [] ∧ ∀ location ≠ place, t.textAt? location = first.textAt? location
    | some f => skipped ≠ [] ∧ first.locate errors = .ok f.location ∧ f.Holds t (errorsText skipped)

/-- The two paths do not lead to one file. -/
def Apart (first : FileTree) (place : Location) (errors : String) : Prop :=
  ∀ location, first.locate errors = .ok location → location ≠ place

section Calls

variable {first t : FileTree} {place : Location} {errors : String} {o : StagedOutput} {written : List Json}
  {skipped : List Failure}

private theorem Wrote.pushRecord (h : Wrote first place errors o t written skipped) (hapart : Apart first place errors)
    (item : Json) :
    Wrote first place errors { o with records := (o.records.push (line item) t).1 } (o.records.push (line item) t).2
      (written ++ [item]) skipped := by
  obtain ⟨hholds, hlocation, htouches⟩ := StagedFile.push_spec (line item) h.records
  have hsame := push_rel FileTree.SameDirectories.isKeptByWriting (line item) o.records t
  refine ⟨h.same.trans hsame, h.errorsPath, hlocation.trans h.recordsAt, ?_, ?_⟩
  · rw [List.flatMap_append, List.flatMap_singleton]
    exact hholds
  · have herrors := h.errors
    rw [h.recordsAt] at htouches
    dsimp only
    split
    · rw [‹o.errors = none›] at herrors
      exact ⟨herrors.1, fun location hne => (htouches.elsewhere location hne).trans (herrors.2 location hne)⟩
    · rw [‹o.errors = some _›] at herrors
      obtain ⟨hskipped, hat, hf⟩ := herrors
      exact ⟨hskipped, hat, hf.other htouches (hapart _ hat)⟩

theorem Wrote.write (h : Wrote first place errors o t written skipped) (hapart : Apart first place errors)
    (items : List Json) :
    (StagedOutput.write items).Returns (o, t) fun r s =>
      r = .ok () ∧ Wrote first place errors s.1 s.2 (written ++ items) skipped := by
  refine .ofChange ⟨rfl, ?_⟩
  dsimp only
  induction items generalizing o t written with
  | nil => rwa [List.append_nil]
  | cons item items ih =>
    have hrest := ih (h.pushRecord hapart item)
    rwa [List.append_assoc] at hrest

private theorem open_returns (path : String) (t : FileTree) :
    (open_ path).Returns t fun r t' => match r with
      | .ok f => FileTree.create path t = (.ok f.location, t') ∧ f = ⟨f.location, 0, []⟩
      | .error _ => t' = t ∧ ∀ location, (FileTree.create path t).1 ≠ .ok location := by
  have hrun : ((FileTree.create path).effect (createFailure path)).run t =
      some ((FileTree.create path t).1.mapError (createFailure path), (FileTree.create path t).2) := rfl
  rw [Effect.Returns, open_, Effect.run_bind, hrun, Option.bind_some]
  cases hcreate : FileTree.create path t with
  | mk made t' =>
    cases made with
    | ok location => exact ⟨_, _, rfl, rfl, rfl⟩
    | error fault => exact ⟨_, _, rfl, FileTree.eq_of_create_error hcreate, by simp⟩

private theorem Wrote.errorsFile (h : Wrote first place errors o t written skipped)
    (hapart : Apart first place errors) :
    StagedOutput.errorsFile.Returns (o, t) fun r s => match r with
      | .ok f => s.1 = { o with errors := some f } ∧ first.SameDirectories s.2 ∧
          o.records.Holds s.2 (written.flatMap line) ∧ first.locate errors = .ok f.location ∧
          f.Holds s.2 (errorsText skipped)
      | .error _ => s = (o, t) ∧ ∀ location, (FileTree.create errors first).1 ≠ .ok location := by
  have herrors := h.errors
  cases hfile : o.errors with
  | some f =>
    rw [hfile] at herrors
    obtain ⟨-, hat, hf⟩ := herrors
    refine ⟨.ok f, (o, t), ?_, ?_, h.same, h.records, hat, hf⟩
    · simp only [StagedOutput.errorsFile, Effect.run_ofRun, hfile]
    · rw [← hfile]
  | none =>
    rw [hfile] at herrors
    obtain ⟨r, t₁, hopen, hspec⟩ := open_returns o.errorsPath t
    cases r with
    | error fault =>
      obtain ⟨rfl, hfails⟩ := hspec
      refine ⟨.error fault, (o, t₁), ?_, rfl, fun location hmakes => ?_⟩
      · simp only [StagedOutput.errorsFile, Effect.run_ofRun, hfile, hopen, Option.map_some]
      · rw [h.errorsPath] at hfails
        exact hfails location (FileTree.create_stays h.same hmakes)
    | ok new =>
      obtain ⟨hcreate, hnew⟩ := hspec
      rw [h.errorsPath] at hcreate
      obtain ⟨base, name, hpath⟩ := FileTree.endsIn_of_create hcreate
      obtain ⟨hlocate, hset⟩ := FileTree.create_ok hpath hcreate
      have hat : first.locate errors = .ok new.location := h.same.locate_iff.mp hlocate
      have hempty : new.Holds t₁ [] := ⟨[], hset.here, by rw [hnew]; rfl, by rw [hnew]; rfl⟩
      obtain ⟨hholds, hlocation, htouches⟩ := StagedFile.push_spec header hempty
      have hsame : t.SameDirectories (new.push header t₁).2 :=
        (FileTree.SameDirectories.isKeptByWriting.create hcreate).trans
          (push_rel FileTree.SameDirectories.isKeptByWriting header new t₁)
      have hrecords : o.records.Holds (new.push header t₁).2 (written.flatMap line) :=
        h.records.other (hset.toTouches.trans htouches) (h.recordsAt ▸ (hapart _ hat).symm)
      refine ⟨.ok (new.push header t₁).1, ({ o with errors := some (new.push header t₁).1 }, (new.push header t₁).2),
        ?_, rfl, h.same.trans hsame, hrecords, ?_, ?_⟩
      · simp only [StagedOutput.errorsFile, Effect.run_ofRun, hfile, hopen, Option.map_some]
      · rw [hlocation, hat]
      · rw [herrors.1]
        simpa [errorsText] using hholds

/-- A failure is noted, unless no errors file can be made. -/
theorem Wrote.writeSkipped (h : Wrote first place errors o t written skipped) (hapart : Apart first place errors)
    (failure : Failure) :
    (StagedOutput.writeSkipped failure).Returns (o, t) fun r s => match r with
      | .ok () => Wrote first place errors s.1 s.2 written (skipped ++ [failure])
      | .error _ => Wrote first place errors s.1 s.2 written skipped ∧
          ∀ location, (FileTree.create errors first).1 ≠ .ok location := by
  refine .bind (h.errorsFile hapart) (fun f s hf => ?_) fun fault s hfails => ?_
  · obtain ⟨o₁, t₁⟩ := s
    obtain ⟨rfl, hsame, hrecords, hat, hholds⟩ := hf
    obtain ⟨hholds', hlocation, htouches⟩ := StagedFile.push_spec (row failure) hholds
    have hsame' := push_rel FileTree.SameDirectories.isKeptByWriting (row failure) f t₁
    have hother : o.records.Holds (f.push (row failure) t₁).2 (written.flatMap line) :=
      hrecords.other htouches (h.recordsAt ▸ (hapart _ hat).symm)
    have htext : errorsText (skipped ++ [failure]) = errorsText skipped ++ row failure := by simp [errorsText]
    refine .ofChange ⟨hsame.trans hsame', h.errorsPath, h.recordsAt, hother, ?_⟩
    exact ⟨by simp, hat.trans (congrArg Except.ok hlocation.symm), htext ▸ hholds'⟩
  · obtain ⟨rfl, hnowhere⟩ := hfails
    exact ⟨h, hnowhere⟩

/-- Nothing stays behind in the buffers. -/
theorem Wrote.close (h : Wrote first place errors o t written skipped) (hapart : Apart first place errors) :
    StagedOutput.close.Returns (o, t) fun r s => r = .ok () ∧ first.SameDirectories s.2 ∧
      s.2.textAt? place = some (written.flatMap line) ∧
      ∀ location, first.locate errors = .ok location → s.2.textAt? location =
        if skipped = [] then first.textAt? location else some (errorsText skipped) := by
  obtain ⟨-, -, hset⟩ := StagedFile.flush_spec h.records
  rw [h.recordsAt] at hset
  have hsame : t.SameDirectories (o.records.flush t).2 := FileTree.SameDirectories.isKeptByWriting.writeAt _ _ _ _
  have herrors := h.errors
  obtain ⟨recordsPath, records, errorsPath, errorsFile⟩ := o
  cases errorsFile with
  | none =>
    obtain ⟨rfl, hothers⟩ := herrors
    refine .ofChange ⟨rfl, h.same.trans hsame, hset.here, fun location hlocation => ?_⟩
    have hne := hapart location hlocation
    rw [if_pos rfl, ← hothers location hne]
    exact hset.elsewhere location hne
  | some f =>
    obtain ⟨hskipped, hat, hf⟩ := herrors
    have hne := hapart f.location hat
    have hf' : f.Holds (records.flush t).2 (errorsText skipped) := hf.other hset.toTouches hne
    obtain ⟨-, -, hseterrors⟩ := StagedFile.flush_spec hf'
    have hsame' : (records.flush t).2.SameDirectories (f.flush (records.flush t).2).2 :=
      FileTree.SameDirectories.isKeptByWriting.writeAt _ _ _ _
    refine .ofChange ⟨rfl, (h.same.trans hsame).trans hsame', ?_, fun location hlocation => ?_⟩
    · exact (hseterrors.elsewhere place (Ne.symm hne)).trans hset.here
    · cases hat.symm.trans hlocation
      rw [if_neg hskipped]
      exact hseterrors.here

theorem Wrote.locate_errors (h : Wrote first place errors o t written skipped) (hskipped : skipped ≠ []) :
    ∃ location, first.locate errors = .ok location := by
  have herrors := h.errors
  split at herrors
  · exact absurd herrors.1 hskipped
  · exact ⟨_, herrors.2.1⟩

/-- What is answered to a call: a failure only if it was to be noted and no errors file can be made. -/
def Call.IsAnswered (first : FileTree) (errors : String) (call : Call) (answer : Except Failure Unit) : Prop :=
  ((∃ items, call = .write items) ∨ ∃ location, (FileTree.create errors first).1 = .ok location) → answer = .ok ()

theorem Wrote.perform (h : Wrote first place errors o t written skipped) (hapart : Apart first place errors)
    (call : Call) :
    call.perform.attempt.Returns (o, t) fun r s => ∃ answer, r = .ok answer ∧ call.IsAnswered first errors answer ∧
      Wrote first place errors s.1 s.2 (written ++ call.items) (skipped ++ Call.noted [call] [answer]) := by
  cases call with
  | write items =>
    refine .attempt ((h.write hapart items).mono fun r s ⟨hr, hs⟩ => ?_)
    subst hr
    refine ⟨_, rfl, fun _ => rfl, ?_⟩
    rw [Call.noted, List.zip_cons_cons, List.zip_nil_left, List.filterMap_cons_none rfl, List.filterMap_nil,
      List.append_nil]
    exact hs
  | writeSkipped failure =>
    refine .attempt ((h.writeSkipped hapart failure).mono fun r s hs => ?_)
    rw [Call.items, List.append_nil]
    cases r with
    | ok => exact ⟨_, rfl, fun _ => rfl, hs⟩
    | error fault =>
      obtain ⟨hs, hnowhere⟩ := hs
      refine ⟨_, rfl, fun hmade => ?_, by rwa [Call.noted, List.zip_cons_cons, List.zip_nil_left,
        List.filterMap_cons_none rfl, List.filterMap_nil, List.append_nil]⟩
      rcases hmade with ⟨items, hitems⟩ | ⟨location, hlocation⟩
      · cases hitems
      · exact absurd hlocation (hnowhere location)

theorem Wrote.calls (h : Wrote first place errors o t written skipped) (hapart : Apart first place errors)
    (calls : List Call) :
    (calls.mapM fun call : Call => call.perform.attempt).Returns (o, t) fun r s => ∃ answers, r = .ok answers ∧
      List.Forall₂ (Call.IsAnswered first errors) calls answers ∧
      Wrote first place errors s.1 s.2 (written ++ calls.flatMap Call.items) (skipped ++ Call.noted calls answers) := by
  induction calls generalizing o t written skipped with
  | nil =>
    rw [List.mapM_nil]
    exact .pure ⟨[], rfl, .nil, by simpa [Call.noted] using h⟩
  | cons call calls ih =>
    rw [List.mapM_cons]
    refine .bind (h.perform hapart call) (fun answer s hanswer => ?_) fun fault s hfault => ?_
    · obtain ⟨_, heq, hfirst, hs⟩ := hanswer
      cases heq
      refine .bind (ih hs) (fun answers u hanswers => ?_) fun fault u hfault => ?_
      · obtain ⟨_, heq, hrest, hu⟩ := hanswers
        cases heq
        refine .pure ⟨_, rfl, .cons hfirst hrest, ?_⟩
        rw [List.append_assoc, List.append_assoc, ← Call.noted_cons] at hu
        exact hu
      · obtain ⟨_, h, -⟩ := hfault
        cases h
    · obtain ⟨_, h, -⟩ := hfault
      cases h

end Calls

section Created

variable {recordsPath errorsPath : String} {t first : FileTree} {o : StagedOutput}
  (hcreate : (create recordsPath errorsPath).run t = some (.ok o, first))
include hcreate

/-- A new writer has an empty records file, and all other files are as before. -/
theorem created_sets : first.locate recordsPath = .ok o.records.location ∧
    FileTree.Sets o.records.location [] t first ∧ Wrote first o.records.location errorsPath o first [] [] := by
  obtain ⟨f, hopen, rfl⟩ := create_parts hcreate
  obtain ⟨hmade, hf⟩ := open_ok hopen
  obtain ⟨base, name, hpath⟩ := FileTree.endsIn_of_create hmade
  obtain ⟨hlocate, hset⟩ := FileTree.create_ok hpath hmade
  have hholds : f.Holds first [] := ⟨[], hset.here, by rw [hf]; rfl, by rw [hf]; rfl⟩
  exact ⟨hset.toGrows.locate hlocate, (withDirectory_keeps recordsPath t).sets hset, .refl first, rfl, rfl, hholds, rfl,
    fun _ _ => rfl⟩

variable (hapart : first.locate errorsPath ≠ first.locate recordsPath)
include hapart

private theorem created_apart : Apart first o.records.location errorsPath := by
  rintro location hlocation rfl
  exact hapart (hlocation.trans (created_sets hcreate).1.symm)

/-- Staged files can be read back. After any calls and the final close each line of the records file is the JSON text of
a written value, in order. The errors file is there if a failure has been noted, and then it has a header and a row for
each failure in order, or if it was there when the writer was made, and then it is as it was unless a failure has been
noted. A call fails only if it has a failure to note and no errors file can be made. -/
theorem staged_files_read_back (calls : List Call) (hplain : ∀ call ∈ calls, ∀ v ∈ call.items, v.IsPlain) :
    ∃ answers o' t', (session calls).run (o, first) = some (.ok answers, o', t') ∧
      List.Forall₂ (Call.IsAnswered first errorsPath) calls answers ∧
      (∃ lines, (t'.read recordsPath).map (Text.splitAt '\n') = .ok (lines ++ [[]]) ∧
        List.Forall₂ (fun line v => Json.read? line = some v ∧ (v.nesting < 128 → Json.parseChars? line = some v))
          lines (calls.flatMap Call.items)) ∧
      ((∃ text, t'.read errorsPath = .ok text) ↔
        Call.noted calls answers ≠ [] ∨ ∃ text, first.read errorsPath = .ok text) ∧
      (Call.noted calls answers = [] → ∀ text, t'.read errorsPath = .ok text ↔ first.read errorsPath = .ok text) ∧
      (Call.noted calls answers ≠ [] → (t'.read errorsPath).map Csv.read? =
        .ok (some (["record".toList, "error".toList] :: (Call.noted calls answers).map rowFields))) := by
  obtain ⟨hrecords, -, hwrote⟩ := created_sets hcreate
  have hplaces := created_apart hcreate hapart
  obtain ⟨_, ⟨o₁, t₁⟩, hcalls, answers, rfl, hanswers, hcalled⟩ := hwrote.calls hplaces calls
  obtain ⟨_, ⟨o₂, t₂⟩, hclose, rfl, hsame, htext, herrors⟩ := hcalled.close hplaces
  rw [List.nil_append] at htext herrors
  have hsilent (hnone : Call.noted calls answers = []) (text : List Char) :
      t₂.read errorsPath = .ok text ↔ first.read errorsPath = .ok text := by
    rw [FileTree.read_ok_iff, FileTree.read_ok_iff]
    refine exists_congr fun location => ?_
    rw [hsame.locate_iff]
    refine and_congr_right fun hlocation => ?_
    rw [herrors location hlocation, if_pos hnone]
  have hnoted (hsome : Call.noted calls answers ≠ []) :
      t₂.read errorsPath = .ok (errorsText (Call.noted calls answers)) := by
    obtain ⟨location, hlocation⟩ := hcalled.locate_errors hsome
    rw [FileTree.read_iff (hsame.grows.locate hlocation), herrors location hlocation, if_neg hsome]
  refine ⟨answers, o₂, t₂, ?_, hanswers, ⟨(calls.flatMap Call.items).map Json.write, ?_, ?_⟩, ?_, hsilent, ?_⟩
  · rw [session, Effect.run_bind, hcalls, Option.bind_some]
    dsimp only
    rw [Effect.run_bind, hclose]
    rfl
  · have hread : t₂.read recordsPath = .ok ((calls.flatMap Call.items).flatMap line) :=
      (FileTree.read_iff (hsame.grows.locate hrecords)).mpr htext
    rw [hread, Except.map, splitAt_lines]
  · rw [List.forall₂_map_left_iff, List.forall₂_same]
    intro v hv
    obtain ⟨call, hcall, hitem⟩ := List.mem_flatMap.mp hv
    have hv := hplain call hcall v hitem
    exact ⟨Json.read?_write hv, Json.parseChars?_write hv⟩
  · by_cases hnone : Call.noted calls answers = []
    · simp only [hsilent hnone, hnone, ne_eq, not_true_eq_false, false_or]
    · simp only [hnoted hnone, hnone, Except.ok.injEq, exists_eq', ne_eq, not_false_eq_true, true_or]
  · intro hsome
    rw [hnoted hsome, Except.map, read?_errorsText]

end Created

end StagedOutput

namespace OldErrors

/-- An errors file is there from before. -/
def before : FileTree where
  nodes := [(["errors.csv"], .file ['o', 'l', 'd'])]
  current := []

def record : Json := .object [("a", .string "x\n\"y\""), ("b", .array [.number (.integer (-7)), .null])]

/-- What is answered to calls, and the errors file after them. -/
def told (calls : List StagedOutput.Call) : Option (Option (List (Option Unit)) × Option (List Char)) := do
  let (.ok o, first) ← (StagedOutput.create "out.jsonl" "errors.csv").run before | none
  let (r, _, t) ← (StagedOutput.session calls).run (o, first)
  return (r.toOption.map fun answers => answers.map (·.toOption), (t.read "errors.csv").toOption)

private theorem told_eq {calls : List StagedOutput.Call} {answers : List (Option Unit)} {text : List Char}
    (h : told calls = some (some answers, some text)) :
    ∃ o first results o' t', (StagedOutput.create "out.jsonl" "errors.csv").run before = some (.ok o, first) ∧
      (StagedOutput.session calls).run (o, first) = some (.ok results, o', t') ∧
      results.map (·.toOption) = answers ∧ t'.read "errors.csv" = .ok text := by
  rw [told] at h
  obtain ⟨⟨made, first⟩, hmade, h⟩ := Option.bind_eq_some_iff.mp h
  cases made with
  | error fault => cases h
  | ok o =>
    obtain ⟨⟨r, o', t'⟩, hsession, h⟩ := Option.bind_eq_some_iff.mp h
    simp only [Option.pure_def, Option.some.injEq, Prod.mk.injEq] at h
    obtain ⟨hresults, hread⟩ := h
    obtain ⟨results, hr, hresults⟩ := Option.map_eq_some_iff.mp hresults
    rw [Effect.ok_of_toOption hr] at hsession
    exact ⟨o, first, results, o', t', hmade, hsession, hresults, Effect.ok_of_toOption hread⟩

private theorem told_unskipped : told [.write [record]] = some (some [some ()], some ['o', 'l', 'd']) := by
  decide +kernel

/-- Nothing is skipped, and yet there is an errors file. -/
theorem errors_file_without_skips : ∃ o first results o' t',
    (StagedOutput.create "out.jsonl" "errors.csv").run before = some (.ok o, first) ∧
      (StagedOutput.session [.write [record]]).run (o, first) = some (.ok results, o', t') ∧
      results.map (·.toOption) = [some ()] ∧ t'.read "errors.csv" = .ok ['o', 'l', 'd'] :=
  told_eq told_unskipped

/-- Two records are written and two failures are noted in between. -/
def calls : List StagedOutput.Call := [.write [record], .writeSkipped (.partialFailure "r, 1" "no \"name\"\nat all"),
  .writeSkipped (.notFound "User" "ü"), .write [.null]]

private theorem places : ((StagedOutput.create "out.jsonl" "errors.csv").run before).map (fun (made, t) =>
    (made.toOption.isSome, (t.locate "errors.csv").toOption, (t.locate "out.jsonl").toOption,
      (FileTree.create "errors.csv" t).1.toOption)) =
    some (true, some ["errors.csv"], some ["out.jsonl"], some ["errors.csv"]) := by
  decide +kernel

private theorem plain : ∀ call ∈ calls, ∀ v ∈ call.items, v.IsPlain := by
  have hitems : ∀ item ∈ [Json.number (.integer (-7)), .null], item.IsPlain := by
    simpa using ⟨.integer _ (by decide), .null⟩
  have hmembers : ∀ member ∈ [("a", Json.string "x\n\"y\""), ("b", .array [.number (.integer (-7)), .null])],
      member.2.IsPlain := by
    simpa using ⟨.string _, .array _ hitems⟩
  have hrecord : record.IsPlain := .object _ (List.pairwise_pair.mpr (by decide)) hmembers
  simp [calls, StagedOutput.Call.items, hrecord, Json.IsPlain.null]

theorem calls_are_read_back : ∃ o first answers o' t',
    (StagedOutput.create "out.jsonl" "errors.csv").run before = some (.ok o, first) ∧
      first.locate "errors.csv" ≠ first.locate "out.jsonl" ∧ (∀ call ∈ calls, ∀ v ∈ call.items, v.IsPlain) ∧
      (StagedOutput.session calls).run (o, first) = some (.ok answers, o', t') ∧
      (∃ lines, (t'.read "out.jsonl").map (Text.splitAt '\n') = .ok (lines ++ [[]]) ∧
        lines.map Json.read? = [some record, some .null]) ∧
      (t'.read "errors.csv").map Csv.read? = .ok (some [["record".toList, "error".toList],
        ["r, 1".toList, "no \"name\"\nat all".toList], [[], "User not found: ü".toList]]) := by
  obtain ⟨⟨made, first⟩, hmade, hplaces⟩ := Option.map_eq_some_iff.mp places
  simp only [Prod.mk.injEq] at hplaces
  obtain ⟨hsome, herrors, hrecords, hcreatable⟩ := hplaces
  obtain ⟨o, ho⟩ := Option.isSome_iff_exists.mp hsome
  rw [Effect.ok_of_toOption ho] at hmade
  have hapart : first.locate "errors.csv" ≠ first.locate "out.jsonl" := by
    rw [Effect.ok_of_toOption herrors, Effect.ok_of_toOption hrecords]
    decide
  obtain ⟨answers, o', t', hrun, hanswers, ⟨lines, hlines, hvalues⟩, -, -, hnoted⟩ :=
    StagedOutput.staged_files_read_back hmade hapart calls plain
  have hall : calls.map (fun _ => .ok ()) = answers := by
    rw [← List.forall₂_eq_eq_eq, List.forall₂_map_left_iff]
    exact hanswers.imp fun call answer h => (h (.inr ⟨_, Effect.ok_of_toOption hcreatable⟩)).symm
  refine ⟨o, first, answers, o', t', hmade, hapart, plain, hrun, ⟨lines, hlines, ?_⟩, ?_⟩
  · have hread : lines.map Json.read? = (calls.flatMap StagedOutput.Call.items).map some := by
      rw [← List.forall₂_eq_eq_eq, List.forall₂_map_left_iff, List.forall₂_map_right_iff]
      exact hvalues.imp fun _ _ h => h.1
    exact hread
  · rw [← hall] at hnoted
    exact hnoted (List.cons_ne_nil _ _)

end OldErrors
end BatchExport
