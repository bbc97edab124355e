import BatchExport.Export.Job
import BatchExport.Proofs.Files.Storage

/-! The staged files of an export, once they are stored. Main statement: the records file is stored, and the errors file
if there is one; files that are stored where they were staged are empty afterwards. -/
namespace BatchExport

/-- The reference to the stored file with this suffix. -/
def WorkPath.stored (outputDir temp suffix : String) : String := Storage.keptAt outputDir (nameWith temp suffix)

/-- The file with this suffix is kept in a directory. -/
structure StagingArea.Kept {temp : String} (area : StagingArea temp) (outputDir : String) (home : Location)
    (t t' : FileTree) (suffix : String) : Prop where
  located : t'.locate (WorkPath.stored outputDir temp suffix) = .ok (home ++ [WorkPath.entry temp suffix])
  text : ∃ text, t.textAt? (area.place suffix) = some text ∧
    t'.textAt? (home ++ [WorkPath.entry temp suffix]) = some (if home = area.dir then [] else text)

/-- A file that is kept can be read; where it was staged itself, nothing is left of it. -/
theorem StagingArea.Kept.read {temp : String} {area : StagingArea temp} {outputDir suffix : String} {home : Location}
    {t t' : FileTree} {text : List Char} (h : area.Kept outputDir home t t' suffix)
    (htext : t.textAt? (area.place suffix) = some text)
    (hlocate : t'.locate (WorkPath.withSuffix temp suffix) = .ok (area.place suffix)) :
    ∃ kept, t'.read (WorkPath.stored outputDir temp suffix) = .ok kept ∧
      (kept = text ∨
        kept = [] ∧ t'.locate (WorkPath.stored outputDir temp suffix) = t'.locate (WorkPath.withSuffix temp suffix)) := by
  obtain ⟨text', htext', hkept⟩ := h.text
  obtain rfl : text' = text := Option.some.inj (htext'.symm.trans htext)
  refine ⟨_, (FileTree.read_iff h.located).mpr hkept, ?_⟩
  split
  · rename_i hhome
    right
    rw [h.located, hlocate, hhome]
    exact ⟨rfl, rfl⟩
  · exact .inl rfl

namespace ExportJob

variable {ω : Type} {j : ExportJob ω} {outputDir temp : String} {area : StagingArea temp} {e e' : Execution}
  {w w' : Worker ω} {refs : List String}

private theorem storeStaged_cons (hstore : j.store = fun path => Worker.onFiles (Storage.store outputDir path))
    {path : String} {rest : List String} {base : List Path.Piece} {name : Path.Piece} {dir : Location}
    (h : Path.EndsIn path base name) (hslash : '/' ∉ name)
    (hwalk : base.foldlM w.files.follow (w.files.start path) = .ok dir) (hdir : w.files.node? dir = some .directory)
    (hrun : (j.storeStaged (path :: rest)).run (e, w) = some (.ok refs, e', w')) :
    w.files.locate path = .ok (dir ++ [String.ofList name]) ∧
    ((w.files.textAt? (dir ++ [String.ofList name]) = none ∧
      (j.storeStaged rest).run (e, w) = some (.ok refs, e', w')) ∨
      ∃ home files more, refs = Storage.keptAt outputDir name :: more ∧
        Storage.Keeps outputDir name (dir ++ [String.ofList name]) home w.files files ∧
        (j.storeStaged rest).run (e, { w with files }) = some (.ok more, e', w')) := by
  obtain ⟨there, ⟨e₁, w₁⟩, hcheck, hrest⟩ := Effect.bind_ok hrun
  obtain ⟨files, hexists, heq⟩ := Effect.onPart_some hcheck
  cases heq
  rw [Effect.run_ofStep, Option.some.injEq, Prod.mk.injEq] at hexists
  obtain ⟨hanswer, rfl⟩ := hexists
  have hthere : w.files.exists? path = .ok there := by
    cases hresult : w.files.exists? path with
    | error fault =>
      rw [hresult] at hanswer
      cases hanswer
    | ok answer =>
      rw [hresult] at hanswer
      cases hanswer
      rfl
  have hlocate := FileTree.locate_of_exists h hwalk hdir hthere
  rw [FileTree.exists?_of_locate hlocate, Except.ok.injEq] at hthere
  refine ⟨hlocate, ?_⟩
  cases there with
  | false =>
    have hnone : w.files.node? (dir ++ [String.ofList name]) = none := by simpa using hthere
    exact .inl ⟨by rw [FileTree.textAt?, hnone], hrest⟩
  | true =>
    obtain ⟨ref, y, hkeep, hrest⟩ := Effect.bind_ok hrest
    obtain ⟨more, z, hmore, heq⟩ := Effect.bind_ok hrest
    cases heq
    obtain ⟨w₁, hworker, rfl⟩ := Effect.onPart_some hkeep
    rw [hstore] at hworker
    obtain ⟨files, hfiles, rfl⟩ := Effect.onPart_some hworker
    obtain ⟨rfl, home, hkept⟩ := Storage.store_ok h hslash hlocate hfiles
    exact .inr ⟨home, files, more, rfl, hkept, hmore⟩

/-- The suffixes of the staged files that there are. -/
def present (area : StagingArea temp) (t : FileTree) : List String :=
  if (t.textAt? area.errors).isSome then [WorkPath.recordsSuffix, WorkPath.errorsSuffix] else [WorkPath.recordsSuffix]

/-- A file that is kept stays what it is while others come. -/
private theorem kept_of_keeps {suffix : String} {home : Location} {t t₁ t₂ t' : FileTree}
    (hkept : Storage.Keeps outputDir (WorkPath.nameWith temp suffix) (area.place suffix) home t₁ t₂)
    (hbefore : t₁.textAt? (area.place suffix) = t.textAt? (area.place suffix)) (hgrown : t₂.Grows t')
    (hafter : t'.textAt? (home ++ [WorkPath.entry temp suffix]) = t₂.textAt? (home ++ [WorkPath.entry temp suffix])) :
    area.Kept outputDir home t t' suffix := by
  obtain ⟨text, htext, hset⟩ := hkept.sets
  refine ⟨hgrown.locate hkept.located, text, hbefore ▸ htext, ?_⟩
  have hself : home ++ [WorkPath.entry temp suffix] = area.place suffix ↔ home = area.dir := List.append_left_inj _
  have hhere : t₂.textAt? (home ++ [WorkPath.entry temp suffix]) =
      some (if home ++ [WorkPath.entry temp suffix] = area.place suffix then [] else text) := hset.here
  rw [hafter, hhere]
  simp only [hself]

theorem storeStaged_ok (hstore : j.store = fun path => Worker.onFiles (Storage.store outputDir path))
    (hgrown : area.tree.Grows w.files) {text : List Char} (htext : w.files.textAt? area.records = some text)
    (hrun : (j.storeStaged [WorkPath.records temp, WorkPath.errors temp]).run (e, w) = some (.ok refs, e', w')) :
    e' = e ∧ refs = (present area w.files).map (WorkPath.stored outputDir temp) ∧
      ∃ home files, w' = { w with files } ∧ w.files.Grows files ∧
        files.locate (WorkPath.errors temp) = .ok area.errors ∧
        ∀ suffix ∈ present area w.files, area.Kept outputDir home w.files files suffix := by
  have hslash (suffix : String) (h : '/' ∉ suffix.toList) : '/' ∉ WorkPath.nameWith temp suffix :=
    Path.slash_not_mem_suffix temp h
  have hnil {e : Execution} {w : Worker ω} {refs : List String}
      (h : (j.storeStaged []).run (e, w) = some (.ok refs, e', w')) : refs = [] ∧ e' = e ∧ w' = w := by
    cases h
    exact ⟨rfl, rfl, rfl⟩
  obtain ⟨-, ⟨hnone, -⟩ | ⟨home, files, more, rfl, hrecords, hrest⟩⟩ := storeStaged_cons hstore
    (WorkPath.endsIn_records temp) (hslash _ (by decide)) (area.walk_of_grows hgrown (by decide))
    (hgrown.directories _ area.isDirectory) hrun
  · cases htext.symm.trans hnone
  · obtain ⟨text₁, htext₁, hset⟩ := hrecords.sets
    have hgrown' := hgrown.trans hset.toGrows
    have herrors : files.textAt? area.errors = w.files.textAt? area.errors :=
      hset.elsewhere _ (WorkPath.append_entry_ne temp)
    obtain ⟨hlocate, ⟨hnone, hrest⟩ | ⟨home', files', more', rfl, hkept, hrest⟩⟩ := storeStaged_cons hstore
      (WorkPath.endsIn_errors temp) (hslash _ (by decide)) (area.walk_of_grows hgrown' (by decide))
      (hgrown'.directories _ area.isDirectory) hrest
    · obtain ⟨rfl, rfl, rfl⟩ := hnil hrest
      have habsent : w.files.textAt? area.errors = none := herrors.symm.trans hnone
      have hpresent : present area w.files = [WorkPath.recordsSuffix] := by
        rw [present, habsent]
        rfl
      rw [hpresent]
      refine ⟨rfl, rfl, home, files, rfl, hset.toGrows, hlocate, fun suffix hsuffix => ?_⟩
      cases List.mem_singleton.mp hsuffix
      exact kept_of_keeps hrecords rfl (.refl files) rfl
    · obtain ⟨rfl, rfl, rfl⟩ := hnil hrest
      obtain ⟨text', htext', hset'⟩ := hkept.sets
      obtain rfl : home' = home :=
        Except.ok.inj (hkept.leads.symm.trans (Storage.home_grows hset'.toGrows hrecords.leads))
      have hthere : w.files.textAt? area.errors = some text' := herrors.symm.trans htext'
      have hpresent : present area w.files = [WorkPath.recordsSuffix, WorkPath.errorsSuffix] := by
        rw [present, hthere]
        rfl
      rw [hpresent]
      refine ⟨rfl, rfl, home', files', rfl, hset.toGrows.trans hset'.toGrows, hset'.toGrows.locate hlocate,
        fun suffix hsuffix => ?_⟩
      rcases List.mem_cons.mp hsuffix with rfl | hsuffix
      · exact kept_of_keeps hrecords rfl hset'.toGrows
          (hset'.elsewhere _ (WorkPath.append_entry_ne temp).symm)
      · cases List.mem_singleton.mp hsuffix
        exact kept_of_keeps hkept herrors (.refl files') rfl

end ExportJob
end BatchExport
