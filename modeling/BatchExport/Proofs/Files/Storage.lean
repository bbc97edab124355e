import BatchExport.Files.Storage
import BatchExport.Proofs.Files.Components
import BatchExport.Proofs.Files.Staged

/-! Copies of staged files. Main statement: a stored file has the text that was staged, unless it was stored onto
itself. -/
namespace BatchExport.Storage

variable {t t' : FileTree} {outputDir staged ref : String} {base : List Path.Piece} {name : Path.Piece}

/-- Where a file of this name is kept. -/
def keptAt (outputDir : String) (name : Path.Piece) : String := Path.join outputDir (String.ofList name)

/-- The directory of what is kept. -/
def home (outputDir : String) (t : FileTree) : Except FileFault Location :=
  (Path.above outputDir).foldlM t.follow (t.start outputDir)

/-- The two are not one directory. -/
def Apart (dir dir' : String) (t : FileTree) : Prop := ∀ place, home dir t = .ok place → home dir' t ≠ .ok place

theorem home_grows {dir : Location} (h : t.Grows t') (hhome : home outputDir t = .ok dir) :
    home outputDir t' = .ok dir := by
  rw [home]
  rw [h.start]
  exact h.walk hhome

/-- What is joined to a directory leads to an entry of it. -/
theorem locate_join {dir file : String} {place : Location} (hname : Path.IsName file.toList)
    (hl : t.locate (Path.join dir file) = .ok place) : ∃ above, home dir t = .ok above ∧ place = above ++ [file] := by
  have hends := hname.endsIn_join dir
  have hstart := t.start_join dir hname
  rw [String.ofList_toList] at hends hstart
  obtain ⟨above, hwalk, rfl, -⟩ := FileTree.locate_ok hends hl
  rw [hstart] at hwalk
  exact ⟨above, hwalk, by rw [String.ofList_toList]⟩

theorem store_ends (outputDir staged : String) : (store outputDir staged).Ends fun _ _ => True := by
  have hname : (requireFileName staged).Ends fun _ _ => True := by
    rw [requireFileName]
    split
    · exact fun _ => .pure trivial
    · exact fun _ => .throw trivial
  refine .bind (fun _ _ => trivial) hname fun name => ?_
  rw [copyInto]
  refine .bind (fun _ _ => trivial) (.ofStep fun _ => trivial) fun _ => ?_
  exact .bind (fun _ _ => trivial) (.ofStep fun _ => trivial) fun _ _ => .pure trivial

/-- A file is kept in a directory. If this is the directory where it was staged, nothing is left of it. -/
structure Keeps (outputDir : String) (name : Path.Piece) (origin dir : Location) (t t' : FileTree) : Prop where
  leads : home outputDir t' = .ok dir
  located : t'.locate (keptAt outputDir name) = .ok (dir ++ [String.ofList name])
  sets : ∃ text, t.textAt? origin = some text ∧
    FileTree.Sets (dir ++ [String.ofList name]) (if dir ++ [String.ofList name] = origin then [] else text) t t'

/-- A copy has the text of its source, and nothing else changes. A file that is copied over itself is empty then. -/
structure Copies (source ref : String) (text : List Char) (origin place : Location) (t t' : FileTree) : Prop where
  sourceAt : t'.locate source = .ok origin
  before : t.textAt? origin = some text
  located : t'.locate ref = .ok place
  sets : FileTree.Sets place (if place = origin then [] else text) t t'

theorem copyInto_ok {source dir file : String} (h : Path.EndsIn (Path.join dir file) base name)
    (hrun : (copyInto source dir file).run t = some (.ok ref, t')) :
    ref = Path.join dir file ∧ ∃ text origin place, Copies source ref text origin place t t' := by
  obtain ⟨⟨⟩, t₁, hdirs, hrun⟩ := Effect.bind_ok hrun
  obtain ⟨⟨⟩, t₂, hcopy, heq⟩ := Effect.bind_ok hrun
  cases heq
  have hmade : t.KeepsFiles t₁ := FileTree.makeDirs_keeps (StagedOutput.effect_ok hdirs)
  obtain ⟨origin, place, text, hsource, hplace, htext, hset⟩ := FileTree.copy_ok h (StagedOutput.effect_ok hcopy)
  rw [hmade.texts] at htext
  exact ⟨rfl, text, origin, place, hset.toGrows.locate hsource, htext, hset.toGrows.locate hplace, hmade.sets hset⟩

theorem store_copies (h : Path.EndsIn staged base name)
    (hrun : (store outputDir staged).run t = some (.ok ref, t')) :
    ref = keptAt outputDir name ∧ ∃ text origin place, Copies staged ref text origin place t t' := by
  rw [store, requireFileName] at hrun
  rw [h.fileName?] at hrun
  obtain ⟨file, t₀, hname, hrun⟩ := Effect.bind_ok hrun
  cases hname
  exact copyInto_ok (h.isName.endsIn_join outputDir) hrun

/-- The storage answers where it keeps a file. -/
theorem store_answers (h : Path.EndsIn staged base name) (hrun : (store outputDir staged).run t = some (.ok ref, t')) :
    ref = keptAt outputDir name :=
  (store_copies h hrun).1

theorem store_ok (h : Path.EndsIn staged base name) (hslash : '/' ∉ name) {origin : Location}
    (horigin : t.locate staged = .ok origin) (hrun : (store outputDir staged).run t = some (.ok ref, t')) :
    ref = keptAt outputDir name ∧ ∃ dir, Keeps outputDir name origin dir t t' := by
  obtain ⟨rfl, text, origin', place, hcopies⟩ := store_copies h hrun
  obtain rfl : origin' = origin := Except.ok.inj (hcopies.sourceAt.symm.trans (hcopies.sets.toGrows.locate horigin))
  have hname : Path.IsName (String.ofList name).toList := by
    rw [String.toList_ofList]
    exact ⟨hslash, h.nonempty, h.notHere, h.notUp⟩
  have hlocated := hcopies.located
  obtain ⟨dir, hhome, rfl⟩ := locate_join hname hlocated
  exact ⟨rfl, dir, hhome, hlocated, text, hcopies.before, hcopies.sets⟩

/-- Whatever the id is, a restored file has a name that ends like the one of its snapshot. -/
theorem endsIn_restored (dir : String) (id : JobId) {name : String} (hslash : '/' ∉ name.toList) :
    ∃ base, Path.EndsIn (Path.join dir (restoredName id name)) base
      ((Path.pieces id.text).getLastD [] ++ '-' :: name.toList) := by
  have hname : ('-' :: name.toList) = ("-" ++ name).toList := by simp
  have hpieces : Path.pieces (restoredName id name) =
      (Path.pieces id.text).dropLast ++ [(Path.pieces id.text).getLastD [] ++ '-' :: name.toList] := by
    have hends : '/' ∉ '-' :: name.toList := by simpa using hslash
    rw [Path.pieces, restoredName, String.append_assoc, String.toList_append, ← hname, Text.splitAt_append hends]
    rfl
  have hlast : '/' ∉ (Path.pieces id.text).getLastD [] ++ '-' :: name.toList := by
    rw [hname]
    exact Path.slash_not_mem_suffix id.text (by simpa using hslash)
  have hends : Path.IsName ((Path.pieces id.text).getLastD [] ++ '-' :: name.toList) := .of_separator hlast (by simp)
  cases habsolute : Path.isAbsolute (restoredName id name) with
  | true =>
    refine ⟨(Path.pieces id.text).dropLast, hends.endsIn ?_⟩
    rw [Path.join, habsolute, Bool.true_or, if_pos rfl, hpieces]
  | false =>
    refine ⟨Path.above dir ++ (Path.pieces id.text).dropLast, hends.endsIn ?_⟩
    rw [Path.pieces_join_relative dir habsolute, hpieces, List.append_assoc]

/-- A snapshot that is restored is copied under the name that starts with the id. -/
theorem restore_ok {restoreDir snapshot : String} {id : JobId}
    (hrun : (restore restoreDir id snapshot).run t = some (.ok ref, t')) :
    ∃ name text origin place, Path.fileName? snapshot = some name ∧
      ref = Path.join restoreDir (restoredName id name) ∧ t.locate snapshot = .ok origin ∧
      Copies snapshot ref text origin place t t' := by
  obtain ⟨t₀, s, hget, hrun⟩ := Effect.bind_ok hrun
  cases hget
  split at hrun
  · cases hrun
  · rename_i hthere
    obtain ⟨origin, hsource⟩ : ∃ origin, t.locate snapshot = .ok origin := by
      cases hlocate : t.locate snapshot with
      | ok origin => exact ⟨origin, rfl⟩
      | error fault => simp [FileTree.isThere, FileTree.stat, hlocate, bind, Except.bind, Except.toOption] at hthere
    obtain ⟨name, s, hname, hrun⟩ := Effect.bind_ok hrun
    rw [requireFileName] at hname
    split at hname
    · rename_i file hfile
      cases hname
      obtain ⟨base, hends⟩ := endsIn_restored restoreDir id (Path.slash_not_mem_fileName hfile)
      obtain ⟨rfl, text, origin', place, hcopies⟩ := copyInto_ok hends hrun
      have hsame : origin' = origin := Except.ok.inj (hcopies.sourceAt.symm.trans (hcopies.sets.toGrows.locate hsource))
      rw [hsame] at hcopies
      exact ⟨_, text, origin, place, hfile, rfl, hsource, hcopies⟩
    · cases hname

end BatchExport.Storage
