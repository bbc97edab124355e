import BatchExport.Proofs.Files.Placement

/-! Whether a cleanup deletes what was staged at its own path. Main statement: it does so exactly if the path ends in a
name; the path of a job ends in a name exactly if the base name of its file has no slash. -/
namespace BatchExport

namespace FileTree

variable {t t' : FileTree} {gone : Location → Prop} {path : String} {location : Location}

theorem isThere_of_locate (h : t.locate path = .ok location) : t.isThere path = (t.node? location).isSome := by
  rw [isThere, stat, h]
  cases hnode : t.node? location <;>
    simp [hnode, bind, Except.bind, pure, Except.pure, throw, throwThe, MonadExceptOf.throw, Except.toOption]

theorem isThere_of_read {text : List Char} (h : t.read path = .ok text) : t.isThere path = true := by
  obtain ⟨location, hl, htext⟩ := read_ok_iff.mp h
  rw [isThere_of_locate hl]
  rw [textAt?] at htext
  cases hnode : t.node? location with
  | none =>
    rw [hnode] at htext
    cases htext
  | some node => rfl

theorem isDirectory_of_locate (h : t.locate path = .ok location) :
    t.isDirectory path = true ↔ t.node? location = some .directory := by
  rw [isDirectory, stat, h]
  cases hnode : t.node? location with
  | none => simp [hnode, bind, Except.bind, throw, throwThe, MonadExceptOf.throw]
  | some node => cases node <;> simp [hnode, bind, Except.bind, pure, Except.pure]

/-- What is left at a path where a file was to be deleted is a directory that was there before. -/
theorem Deletes.isThere_iff (h : Deletes gone t t')
    (hgone : ∀ location text, t.locate path = .ok location → t.textAt? location = some text → gone location) :
    t'.isThere path = true ↔ t.isDirectory path = true := by
  cases hl : t.locate path with
  | error fault =>
    have hthere : t.isDirectory path = false := by
      rw [isDirectory, stat, hl]
      rfl
    have hgone' : t'.isThere path = false := by
      cases hl' : t'.locate path with
      | error fault' =>
        rw [isThere, stat, hl']
        rfl
      | ok location => cases hl.symm.trans (h.locate_iff.mp hl')
    rw [hthere, hgone']
  | ok location =>
    have hdirectory : t'.node? location = some .directory ↔ t.node? location = some .directory :=
      ⟨h.shrinks.directories location, h.grows.directories location⟩
    have htext : t'.textAt? location = none := by
      cases hold : t.textAt? location with
      | some text => exact h.deleted location (hgone location text hl hold)
      | none =>
        by_cases hreach : gone location
        · exact h.deleted location hreach
        · rw [h.others location hreach, hold]
    rw [isThere_of_locate (h.locate_iff.mpr hl), isDirectory_of_locate hl, ← hdirectory]
    rw [textAt?] at htext
    cases hnode : t'.node? location with
    | none => simp
    | some node =>
      rw [hnode] at htext
      cases node with
      | directory => simp
      | file text => cases htext

/-- What can be read at a path where nothing was to be deleted can be read as before. -/
theorem Deletes.read_iff {text : List Char} (h : Deletes gone t t')
    (hkept : ∀ location text, t.locate path = .ok location → t.textAt? location = some text → ¬ gone location) :
    t'.read path = .ok text ↔ t.read path = .ok text := by
  rw [read_ok_iff, read_ok_iff]
  refine exists_congr fun location => ?_
  rw [h.locate_iff]
  refine and_congr_right fun hl => ?_
  by_cases hreach : gone location
  · rw [h.deleted location hreach]
    exact iff_of_false (by simp) fun htext => hkept location text hl htext hreach
  · rw [h.others location hreach]

end FileTree

namespace Path

variable {path dir : String} {before after l : List Piece} {piece : Piece}

/-- The last piece that names something is a name if nothing but names and idle pieces come after one. -/
private theorem dropMeaningless_isName (hpiece : IsName piece) (hl : ∀ other ∈ l, IsIdle other ∨ IsName other) :
    ∃ name more, dropMeaningless (l ++ piece :: before) = name :: more ∧ IsName name := by
  induction l with
  | nil =>
    have hidle : ¬ IsIdle piece := fun h => h.elim hpiece.nonempty hpiece.notHere
    rw [List.nil_append, dropMeaningless, if_pos (isMeaningful_of_not_idle hidle _)]
    exact ⟨piece, before, rfl, hpiece⟩
  | cons other l ih =>
    obtain ⟨hother, hl⟩ := List.forall_mem_cons.mp hl
    have hbelow : (l ++ piece :: before).isEmpty = false := by simp
    rw [List.cons_append, dropMeaningless, hbelow]
    split
    · have hidle : ¬ IsIdle other := (isMeaningful_iff other).mp ‹_›
      exact ⟨other, _, rfl, hother.resolve_left hidle⟩
    · exact ih hl

theorem fileName?_isSome (hpieces : pieces path = before ++ piece :: after) (hpiece : IsName piece)
    (hafter : ∀ other ∈ after, IsIdle other ∨ IsName other) : ∃ name, fileName? path = some name := by
  have hreverse : (pieces path).reverse = after.reverse ++ piece :: before.reverse := by simp [hpieces]
  have hother : ∀ other ∈ after.reverse, IsIdle other ∨ IsName other := fun other hmem =>
    hafter other (List.mem_reverse.mp hmem)
  obtain ⟨name, more, hdrop, hname⟩ : ∃ name more,
      dropMeaningless (after.reverse ++ piece :: before.reverse) = name :: more ∧ IsName name :=
    dropMeaningless_isName hpiece hother
  refine ⟨String.ofList name, ?_⟩
  rw [fileName?, last?, hreverse, hdrop, List.head?_cons, Option.map_some, componentOf, if_neg hname.notHere,
    if_neg hname.notUp]

/-- What is joined to a directory ends as before. -/
theorem exists_toList_join (dir path : String) : ∃ before, (join dir path).toList = before ++ path.toList := by
  rw [join]
  split
  · exact ⟨[], rfl⟩
  · split
    · exact ⟨dir.toList, String.toList_append⟩
    · exact ⟨(dir ++ "/").toList, String.toList_append⟩

theorem join_ne_empty (dir : String) (h : path ≠ "") : join dir path ≠ "" := by
  obtain ⟨before, hjoin⟩ := exists_toList_join dir path
  intro hempty
  rw [hempty] at hjoin
  exact h (String.toList_eq_nil_iff.mp (List.append_eq_nil_iff.mp hjoin.symm).2)

/-- What is joined to a directory has its own pieces last. -/
theorem exists_pieces_join (dir path : String) : ∃ before, pieces (join dir path) = before ++ pieces path := by
  cases habsolute : isAbsolute path with
  | true => exact ⟨[], by rw [join, habsolute]; rfl⟩
  | false => exact ⟨above dir, pieces_join_relative dir habsolute⟩

end Path

namespace WorkPath

variable {t t' : FileTree} {temp suffix workDir appName file : String} {id : JobId} {location : Location}

/-- The last piece of the path that staged files start with. -/
def lastPiece (temp : String) : Path.Piece := (Path.pieces temp).getLastD []

theorem pieces_eq (temp : String) : Path.pieces temp = base temp ++ [lastPiece temp] := by
  have hne : Path.pieces temp ≠ [] := Text.splitAt_ne_nil '/' temp.toList
  rw [base, lastPiece, List.getLastD_eq_getLast?, List.getLast?_eq_some_getLast hne, Option.getD_some,
    List.dropLast_concat_getLast]

theorem endsIn_withSuffix (temp : String) (hsuffix : suffix = recordsSuffix ∨ suffix = errorsSuffix) :
    Path.EndsIn (withSuffix temp suffix) (base temp) (nameWith temp suffix) := by
  rcases hsuffix with rfl | rfl
  · exact endsIn_records temp
  · exact endsIn_errors temp

/-- If the path ends in a name, the staged files are its siblings. -/
theorem takes_staged (hname : Path.IsName (lastPiece temp)) (hbase : base temp ≠ [])
    (hblank : Text.isBlank (String.ofList (lastPiece temp)) = false)
    (hsuffix : suffix = recordsSuffix ∨ suffix = errorsSuffix) (hl : t.locate (withSuffix temp suffix) = .ok location) :
    Cleanup.Takes temp t (withSuffix temp suffix) :=
  (Cleanup.takes_sibling_iff (hname.endsIn (pieces_eq temp)) (endsIn_withSuffix temp hsuffix) hblank hl).mpr
    ⟨hbase, List.prefix_append _ _⟩

/-- If the path does not end in a name, they lie in the directory to which it leads, and the cleanup does not look into
that one. -/
theorem not_takes_staged (hname : ¬ Path.IsName (lastPiece temp))
    (hsuffix : suffix = recordsSuffix ∨ suffix = errorsSuffix) (hl : t.locate (withSuffix temp suffix) = .ok location) :
    ¬ Cleanup.Takes temp t (withSuffix temp suffix) := by
  rintro ⟨dir, lead, name, hscope, hfile, -, hsame⟩
  obtain ⟨hparent, -, hlead, -⟩ := Cleanup.scope?_eq_some.mp hscope
  obtain ⟨dir', before, dropped, hparent', hway, habsolute, hpieces, hidle, hleads⟩ := Path.way_of_fileName hlead
  cases hparent.symm.trans hparent'
  have hstaged := endsIn_withSuffix temp hsuffix
  obtain rfl := Option.some.inj (hstaged.fileName?.symm.trans hfile)
  -- the last piece is one of the idle ones after the lead
  obtain ⟨idle, last, rfl⟩ : ∃ idle last, dropped = idle ++ [last] := by
    rcases List.eq_nil_or_concat dropped with rfl | ⟨idle, last, rfl⟩
    · rw [pieces_eq] at hpieces
      obtain ⟨-, hlast⟩ := List.append_inj' hpieces rfl
      rw [List.singleton_inj.mp hlast] at hname
      exact absurd hleads hname
    · exact ⟨idle, last, List.concat_eq_append⟩
  have hbase : base temp = before ++ lead.toList :: idle := by
    rw [base, hpieces, ← List.cons_append, ← List.append_assoc, List.dropLast_concat]
  obtain ⟨place, hwalk, rfl, -⟩ := FileTree.locate_ok hstaged hl
  rw [hbase] at hwalk
  obtain ⟨parent, hup, hdown⟩ := FileTree.walk_append.mp hwalk
  obtain ⟨next, hnext, hrest⟩ := FileTree.walk_cons.mp hdown
  obtain rfl := FileTree.walk_idle (fun piece hpiece => hidle piece (List.mem_append_left _ hpiece)) hrest
  obtain ⟨rfl, -⟩ := FileTree.follow_ok (hleads.endsIn_join "") hnext
  -- the cleanup looks for the same names in the parent
  rw [hl] at hsame
  obtain ⟨parent', hwalk', heq, -⟩ := FileTree.locate_ok (hstaged.isName.endsIn_join dir) hsame
  have hslash : '/' ∉ suffix.toList := by rcases hsuffix with rfl | rfl <;> decide
  have hstart : t.start (withSuffix temp suffix) = t.start dir := by
    rw [withSuffix, t.start_suffix temp hslash, FileTree.start, FileTree.start]
    rw [Bool.eq_iff_iff.mpr (habsolute.trans hway.absolute.symm)]
  rw [t.start_join dir hstaged.isName, ← hstart] at hwalk'
  cases hwalk'.symm.trans (FileTree.walk_way hway hup)
  have hlengths := congrArg List.length heq
  simp at hlengths

/-- A name without its extension, unless that would leave nothing of it. -/
theorem withoutExtension_cases (cs : List Char) : (withoutExtension cs = cs ∧ '.' ∉ cs.tail) ∨
    ∃ extension, cs = withoutExtension cs ++ '.' :: extension ∧ '.' ∉ extension := by
  have hsplit : cs = (cs.reverse.dropWhile (· ≠ '.')).reverse ++ (cs.reverse.takeWhile (· ≠ '.')).reverse := by
    rw [← List.reverse_append, List.takeWhile_append_dropWhile, List.reverse_reverse]
  have hplain : '.' ∉ (cs.reverse.takeWhile (· ≠ '.')).reverse := by
    intro hmem
    have hdot := List.all_eq_true.mp List.all_takeWhile _ (List.mem_reverse.mp hmem)
    simp at hdot
  rw [withoutExtension]
  cases hdrop : cs.reverse.dropWhile (· ≠ '.') with
  | nil =>
    rw [hdrop] at hsplit
    rw [hsplit]
    exact .inl ⟨rfl, fun hmem => hplain (List.mem_of_mem_tail hmem)⟩
  | cons dot stem =>
    obtain rfl : dot = '.' := by
      have hfirst := List.head?_dropWhile_not (· ≠ '.') cs.reverse
      rw [hdrop] at hfirst
      simpa using hfirst
    rw [hdrop, List.reverse_cons, List.append_assoc] at hsplit
    cases stem with
    | nil =>
      left
      refine ⟨rfl, ?_⟩
      rw [hsplit]
      exact hplain
    | cons c stem =>
      right
      exact ⟨_, by simpa using hsplit, hplain⟩

theorem exists_last_slash {cs : List Char} (h : '/' ∈ cs) : ∃ before last, cs = before ++ '/' :: last ∧ '/' ∉ last := by
  obtain ⟨last, before, heq, hlast⟩ := List.eq_append_cons_of_mem (List.mem_reverse.mpr h)
  rw [List.reverse_eq_iff, List.reverse_append, List.reverse_cons, List.append_assoc] at heq
  exact ⟨before.reverse, last.reverse, heq, by simpa using hlast⟩

private theorem isName_cut {last first : List Char} (hidle : ¬ Path.IsIdle last) (hlast : '/' ∉ last)
    (hfirst : '/' ∉ first) : Path.IsName (last ++ ['.'] ++ first) := by
  obtain ⟨c, more, rfl⟩ := List.exists_cons_of_ne_nil fun h => hidle (.inl h)
  refine ⟨by simp_all, by simp, by simp, fun hup => ?_⟩
  obtain ⟨rfl, hmore⟩ := List.cons.inj hup
  cases more with
  | nil => exact hidle (.inr rfl)
  | cons c more => simp at hmore

private theorem idle_or_isName {piece : Path.Piece} (hplain : '.' ∉ piece) (hslash : '/' ∉ piece) :
    Path.IsIdle piece ∨ Path.IsName piece := by
  by_cases hempty : piece = []
  · exact .inl (.inl hempty)
  · refine .inr ⟨hslash, hempty, ?_, ?_⟩ <;> rintro rfl <;> simp at hplain

/-- A base name with a slash is the whole text of a path that ends in dots, without the last one. -/
theorem isIdle_of_slash {before last : List Char} (hbase : (baseName file).toList = before ++ '/' :: last)
    (hlast : '/' ∉ last) : Path.IsIdle last := by
  have hnone : Path.fileName? file = none := by
    cases hfile : Path.fileName? file with
    | none => rfl
    | some name => exact absurd (by rw [hbase]; simp) (slash_not_mem_baseName hfile)
  rw [baseName, hnone, Option.getD_none, String.toList_ofList] at hbase
  by_cases hidle : Path.IsIdle last
  · exact hidle
  have hsome : ∃ name, Path.fileName? file = some name := by
    obtain ⟨hwhole, hplain⟩ | ⟨extension, hcut, hplain⟩ := withoutExtension_cases file.toList
    · have hpieces : Path.pieces file = Text.splitAt '/' before ++ last :: [] := by
        rw [Path.pieces, ← hwhole, hbase, Text.splitAt_separator, Text.splitAt_of_not_mem hlast]
      refine Path.fileName?_isSome hpieces ⟨hlast, fun h => hidle (.inl h), fun h => hidle (.inr h), ?_⟩ (by simp)
      rintro rfl
      rw [← hwhole, hbase] at hplain
      cases before <;> simp at hplain
    · obtain ⟨first, rest, hextension⟩ := List.exists_cons_of_ne_nil (Text.splitAt_ne_nil '/' extension)
      have hpieces : Path.pieces file = Text.splitAt '/' before ++ (last ++ ['.'] ++ first) :: rest := by
        have htext : file.toList = before ++ '/' :: (last ++ ['.'] ++ extension) := by
          rw [hcut, hbase]
          simp
        have hlead : '/' ∉ last ++ ['.'] := by simpa using hlast
        rw [Path.pieces, htext, Text.splitAt_separator, Text.splitAt_of_lead hlead hextension]
      refine Path.fileName?_isSome hpieces (isName_cut hidle hlast ?_) fun other hother => ?_
      · exact Text.not_mem_of_mem_splitAt (hextension ▸ List.mem_cons_self)
      · have hmem : other ∈ Text.splitAt '/' extension := hextension ▸ List.mem_cons_of_mem _ hother
        exact idle_or_isName (fun h => hplain (Text.subset_of_mem_splitAt hmem h)) (Text.not_mem_of_mem_splitAt hmem)
  obtain ⟨name, hname⟩ := hsome
  cases hnone.symm.trans hname

private theorem lastPiece_tempPath (workDir appName : String) (id : JobId) (file : String) :
    lastPiece (tempPath workDir appName id file) = lastPiece (stem id file) := by
  obtain ⟨before, hpieces⟩ := Path.exists_pieces_join (appDir workDir appName) (stem id file)
  have hne : Path.pieces (stem id file) ≠ [] := Text.splitAt_ne_nil '/' _
  change (Path.pieces (Path.join (appDir workDir appName) (stem id file))).getLastD [] = _
  rw [hpieces, lastPiece, List.getLastD_eq_getLast?, List.getLastD_eq_getLast?, List.getLast?_append,
    List.getLast?_eq_some_getLast hne]
  rfl

private theorem lastPiece_of_not_mem (hslash : '/' ∉ (baseName file).toList) :
    lastPiece (stem id file) = lastPiece id.text ++ (jobIdSeparator ++ baseName file).toList ∧
      '/' ∉ lastPiece (stem id file) := by
  have hsuffix : '/' ∉ (jobIdSeparator ++ baseName file).toList := by simpa [jobIdSeparator] using hslash
  have hlast : lastPiece (stem id file) = lastPiece id.text ++ (jobIdSeparator ++ baseName file).toList := by
    rw [lastPiece, stem, String.append_assoc, Path.pieces, String.toList_append, Text.splitAt_append hsuffix]
    simp [lastPiece, Path.pieces]
  exact ⟨hlast, hlast ▸ Path.slash_not_mem_suffix id.text hsuffix⟩

private theorem separator_mem_lastPiece (hslash : '/' ∉ (baseName file).toList) : '-' ∈ lastPiece (stem id file) := by
  rw [(lastPiece_of_not_mem hslash).1]
  simp [jobIdSeparator]

/-- The path of a job ends in a name exactly if the base name of its file has no slash. -/
theorem isName_lastPiece_iff (workDir appName : String) (id : JobId) (file : String) :
    Path.IsName (lastPiece (tempPath workDir appName id file)) ↔ '/' ∉ (baseName file).toList := by
  rw [lastPiece_tempPath]
  constructor
  · intro hname hslash
    obtain ⟨before, last, hbase, hlast⟩ := exists_last_slash hslash
    have hpiece : lastPiece (stem id file) = last := by
      have htext : (stem id file).toList = (id.text.toList ++ '-' :: before) ++ '/' :: last := by
        simp [stem, jobIdSeparator, hbase]
      rw [lastPiece, Path.pieces, htext, Text.splitAt_separator, Text.splitAt_of_not_mem hlast]
      simp
    rw [hpiece] at hname
    exact (isIdle_of_slash hbase hlast).elim hname.nonempty hname.notHere
  · exact fun hslash => .of_separator (lastPiece_of_not_mem hslash).2 (separator_mem_lastPiece hslash)

theorem isBlank_tempPath (workDir appName : String) (id : JobId) (file : String) :
    Text.isBlank (tempPath workDir appName id file) = false := by
  obtain ⟨before, hjoin⟩ := Path.exists_toList_join (appDir workDir appName) (stem id file)
  rw [tempPath, ← stem, Text.isBlank, List.all_eq_false, hjoin]
  exact ⟨'-', List.mem_append_right before (separator_mem_stem id file), by decide⟩

private theorem isBlank_lastPiece (workDir appName : String) (id : JobId) (hslash : '/' ∉ (baseName file).toList) :
    Text.isBlank (String.ofList (lastPiece (tempPath workDir appName id file))) = false := by
  rw [Text.isBlank, List.all_eq_false, String.toList_ofList, lastPiece_tempPath]
  exact ⟨'-', separator_mem_lastPiece hslash, by decide⟩

private theorem base_tempPath (workDir : String) (id : JobId) (file : String) (happ : appName ≠ "") :
    base (tempPath workDir appName id file) ≠ [] := by
  have happdir : appDir workDir appName ≠ "" := Path.join_ne_empty workDir happ
  rw [base, tempPath, ← stem]
  cases habsolute : Path.isAbsolute (stem id file) with
  | true =>
    obtain ⟨piece, rest, hpieces⟩ := (Path.isAbsolute_iff _).mp habsolute
    have hjoin : Path.join (appDir workDir appName) (stem id file) = stem id file := by
      rw [Path.join, habsolute]
      rfl
    rw [hjoin, hpieces, List.dropLast_cons_cons]
    exact List.cons_ne_nil _ _
  | false =>
    have hne : Path.pieces (stem id file) ≠ [] := Text.splitAt_ne_nil '/' _
    rw [Path.pieces_join_relative _ habsolute, List.dropLast_append_of_ne_nil hne]
    exact List.append_ne_nil_of_left_ne_nil (mt (Path.above_eq_nil_iff _).mp happdir) _

/-- What a cleanup of its own path leaves of the staged files of a job: nothing but a directory in the place of one, or
else all that can be read. -/
theorem own_cleanup (id : JobId) (file : String) (happ : appName ≠ "")
    (hsuffix : suffix = recordsSuffix ∨ suffix = errorsSuffix)
    (h : FileTree.Deletes (Cleanup.Reaches (tempPath workDir appName id file) t) t t') :
    ('/' ∉ (baseName file).toList → (t'.isThere (withSuffix (tempPath workDir appName id file) suffix) = true ↔
      t.isDirectory (withSuffix (tempPath workDir appName id file) suffix) = true)) ∧
    ('/' ∈ (baseName file).toList → t.WellNamed → ∀ text,
      t'.read (withSuffix (tempPath workDir appName id file) suffix) = .ok text ↔
        t.read (withSuffix (tempPath workDir appName id file) suffix) = .ok text) := by
  have hname := isName_lastPiece_iff workDir appName id file
  have hstaged := endsIn_withSuffix (tempPath workDir appName id file) hsuffix
  constructor
  · intro hslash
    refine h.isThere_iff fun location text hl htext => ?_
    have htakes := takes_staged (hname.mpr hslash) (base_tempPath workDir id file happ)
      (isBlank_lastPiece workDir appName id hslash) hsuffix hl
    exact htakes.reaches hstaged hl htext
  · intro hslash hnames text
    refine h.read_iff fun location text hl htext hreach => ?_
    have hnot : ¬ Path.IsName (lastPiece (tempPath workDir appName id file)) := fun h => hname.mp h hslash
    exact not_takes_staged hnot hsuffix hl ((Cleanup.reaches_iff_takes hnames hstaged hl htext).mp hreach)

end WorkPath
end BatchExport
