import Autobase.PatroniConfigUpgrade

/-! # What the update leaves of a rendered patroni.yml

A file that the template has rendered should lose the removed parameters and the standby cluster,
have wal_keep_size for wal_keep_segments, and keep all its other settings. -/
namespace PatroniConfigPrepared

open LineEdits PatroniConfigBackup PatroniPaths PatroniTemplate PatroniConfigUpgrade

/-! ## Settings -/

/-- The lines that are not blank. -/
def settings (ls : List Line) : List Line := ls.filter fun l => !standbyCluster.blank l

def isDeleted (v : Vars) (p : Parameter) : Bool :=
  deleted.any fun x => v.crosses x.2 && decide (x.1.toList = p.option)

def walKeepSegments : Line := "wal_keep_segments".toList

/-- What should become of a parameter: nothing, a size in MB, or the same. -/
def converted (v : Vars) (indent : ℕ) (p : Parameter) : Option Line :=
  if isDeleted v p then none
  else if v.crosses 13 ∧ p.option = walKeepSegments then
    some (keyed indent "wal_keep_size".toList (toString (v.int p.value * 16) ++ "MB").toList)
  else some (p.line indent)

/-- The file for the new version, with some paths. -/
def upgraded (v : Vars) (t : Template) (paths : Directory → Path) : List Line :=
  t.beginning ++ parametersLine :: t.postgresqlParameters.filterMap (converted v 8) ++
    slotsSection t.patroniSlots ++
    initdbLine :: (t.initdb ++ { t with paths := paths }.directoryLines ++ t.postgresql ++
      t.localPostgresqlParameters.filterMap (converted v 4) ++
      (if v.crosses 15 then [] else t.statsLines) ++ t.ending)

def updated (v : Vars) (t : Template) : List Line := (update v ⟨t.render, []⟩).all

/-- No removed parameter is set, and the settings are those of the file for the new version. -/
structure Prepared (v : Vars) (t : Template) : Prop where
  removed : ∀ x ∈ removedParameters, v.crosses x.2 = true →
    ∀ l ∈ updated v t, isParameter x.1 l = false
  unchanged : ∃ paths, settings (updated v t) = settings (upgraded v t paths)

/-! ## What the edits leave -/

/-- The paths after the update. -/
def updatedPaths (v : Vars) (t : Template) : Directory → Path :=
  fun d => rewritten (v.pgOld d) (v.pgNew d) (t.paths d)

def keptParameters (v : Vars) (indent : ℕ) (ps : List Parameter) : List Line :=
  (ps.filter fun p => !isDeleted v p).map (Parameter.line indent)

def keptDcsLines (v : Vars) (t : Template) : List Line :=
  t.beginning ++ parametersLine :: keptParameters v 8 t.postgresqlParameters

/-- The lines below the key of initdb. -/
def keptRemainingLines (v : Vars) (t : Template) : List Line :=
  t.initdb ++ { t with paths := updatedPaths v t }.directoryLines ++ t.postgresql ++
    keptParameters v 4 t.localPostgresqlParameters ++
    (if v.crosses 15 then [] else t.statsLines) ++ t.ending

/-! ## Files without accidents -/

/-- No edit of the paths and no removal does anything to the line. -/
structure Untouched (v : Vars) (l : Line) : Prop where
  directories : ∀ d, found (directoryRegexp d (v.pgOld d)) l = false
  removed : ∀ x ∈ removedParameters, v.crosses x.2 = true → isParameter x.1 l = false

def standbyLines (t : Template) : List Line :=
  if t.patroniStandbyCluster.host = [] then [] else t.patroniStandbyCluster.lines

def slotLines (t : Template) : List Line := t.patroniSlots.flatMap Slot.lines

def otherLines (t : Template) : List Line :=
  t.beginning ++ standbyLines t ++ slotLines t ++ t.initdb ++ t.postgresql ++ t.ending

def parameters (t : Template) : List Parameter :=
  t.postgresqlParameters ++ t.localPostgresqlParameters

def settingLines (t : Template) : List Line :=
  t.postgresqlParameters.map (Parameter.line 8) ++
    t.localPostgresqlParameters.map (Parameter.line 4) ++ t.statsLines

/-- Where an edit is made, the text that it looks for stands nowhere else: no line but those of
the directories has an old path behind its key, and no line but those of the parameters the name
of a removed one. If wal_keep_segments is renamed, its text stands in no other line and in no
value. No line above initdb but the one of the standby cluster begins like it, the mark up to
which that is cut out does not stand in its lines, and below initdb no such line has the mark
behind it. -/
structure Ordinary (v : Vars) (t : Template) : Prop where
  simple : v.PathsSimple
  scalars : ∀ d, isScalar (t.paths d) = true
  others : ∀ l ∈ otherLines t, Untouched v l
  settings : ∀ l ∈ settingLines t, ∀ d, found (directoryRegexp d (v.pgOld d)) l = false
  segments : Renames v ⟨t.render, []⟩ →
    (∀ l ∈ otherLines t ++ t.statsLines, found walKeepSegmentsRegexp l = false) ∧
      ∀ p ∈ parameters t, found walKeepSegmentsRegexp (p.value ++ ['"']) = false
  above : ∀ l ∈ keptDcsLines v t ++
      (if t.patroniStandbyCluster.host = [] then slotLines t else []),
    standbyCluster.first l = false
  sections : t.patroniStandbyCluster.host ≠ [] →
    ∀ l ∈ t.patroniStandbyCluster.lines ++ slotLines t, standbyCluster.mark l = none
  below : (keptRemainingLines v t).Pairwise fun l l' =>
    standbyCluster.first l = true → standbyCluster.mark l' = none

/-- wal_keep_segments is not set on the way to 13, and a standby cluster has no slots. -/
structure Convertible (v : Vars) (t : Template) : Prop where
  segments : v.crosses 13 = true →
    ∀ p ∈ parameters t, p.option ≠ walKeepSegments
  slots : t.patroniStandbyCluster.host ≠ [] → t.patroniSlots = []

variable {v : Vars} {t : Template} {n : ℕ} {p : Parameter} {l : Line} {ls : List Line}

/-! ## Lines of parameters -/

def statsKey : Line := "stats_temp_directory".toList

/-- The names have no colon, no directory has one of them, and the key of the statistics goes in
15. -/
theorem removedParameters_names : ∀ x ∈ removedParameters, ':' ∉ x.1.toList ∧
    (∀ d ∈ [Directory.data, .bin, .config], x.1.toList ≠ d.name) ∧
      (x.1.toList = statsKey → x.2 = 15) := by
  decide +kernel

theorem names_colon : ∀ x ∈ removedParameters, ':' ∉ x.1.toList :=
  fun x hx => (removedParameters_names x hx).1

theorem mem_directories (d : Directory) : d ∈ [Directory.data, .bin, .config] := by
  cases d <;> decide

theorem isParameter_line {x : String × ℕ} (hx : x ∈ removedParameters) :
    isParameter x.1 (p.line n) = true ↔ x.1.toList = p.option :=
  isParameter_keyed p.named p.identifier (names_colon x hx)

theorem mem_removedParameters {x : String × ℕ} (hx : x ∈ deleted) : x ∈ removedParameters :=
  List.mem_cons_of_mem _ hx

theorem deletes_line : deletes v deleted (p.line n) = isDeleted v p := by
  rw [Bool.eq_iff_iff, deletes, isDeleted, List.any_eq_true, List.any_eq_true]
  refine exists_congr fun x => and_congr_right fun hx => ?_
  rw [Bool.and_eq_true, Bool.and_eq_true, decide_eq_true_eq,
    isParameter_line (mem_removedParameters hx)]

theorem line_before (p : Parameter) (n : ℕ) : p.line n =
    (List.replicate n ' ' ++ p.option) ++ ':' :: ' ' :: '"' :: (p.value ++ ['"']) := by
  rw [Parameter.line, keyed, indented, List.append_assoc]

theorem colon_notMem_before (p : Parameter) (n : ℕ) : ':' ∉ List.replicate n ' ' ++ p.option := by
  rw [List.mem_append, not_or]
  refine ⟨fun hmem => absurd (List.eq_of_mem_replicate hmem) (by decide), ?_⟩
  exact colon_notMem_of_identifier p.identifier

theorem found_walKeepSegments_line (h : found walKeepSegmentsRegexp (p.value ++ ['"']) = false) :
    found walKeepSegmentsRegexp (p.line n) = false := by
  refine Bool.eq_false_iff.mpr fun hfound => ?_
  rw [line_before] at hfound
  have hvalue := found_quoted (fun b hb => walKeepSegmentsRegexp_some hb) (by decide) (by decide)
    (by decide) (colon_notMem_before p n) hfound
  exact Bool.false_ne_true (h.symm.trans hvalue)

/-! ## Lines of directories -/

theorem directoryLine_eq (n : ℕ) (d : Directory) (path : Path) :
    directoryLine n d path = keyed n d.name path := by
  simp [directoryLine, Directory.key, keyed, indented]

theorem name_ne_nil (d : Directory) : d.name ≠ [] := by
  cases d <;> decide

theorem name_identifier (d : Directory) : d.name.all isIdentifier = true := by
  cases d <;> decide

theorem isParameter_directoryLine {x : String × ℕ} (hx : x ∈ removedParameters) (d : Directory)
    (path : Path) : isParameter x.1 (directoryLine n d path) = false := by
  refine Bool.eq_false_iff.mpr fun hp =>
    (removedParameters_names x hx).2.1 d (mem_directories d) ?_
  rw [directoryLine_eq] at hp
  exact (isParameter_keyed (name_ne_nil d) (name_identifier d) (names_colon x hx)).mp hp

/-- The only key of the line is the name of the directory. -/
theorem found_walKeepSegments_directoryLine (d : Directory) {path : Path}
    (hpath : isScalar path = true) :
    found walKeepSegmentsRegexp (directoryLine n d path) = false := by
  refine Bool.eq_false_iff.mpr fun hfound => ?_
  obtain ⟨a, b, hline, hsome⟩ := exists_of_found hfound
  obtain ⟨c, rest, rfl, -⟩ := walKeepSegmentsRegexp_some hsome
  rw [directoryLine, key_eq, ← List.append_assoc, ← List.append_assoc] at hline
  obtain ⟨hnames, -⟩ := keyed_inj (colon_notMem_name n d) hpath hline
  have hlast := congrArg List.getLast? hnames
  rw [List.getLast?_append_of_ne_nil _ (name_ne_nil d),
    List.getLast?_append_of_ne_nil _ (by decide)] at hlast
  revert hlast
  cases d <;> decide

/-! ## Lines of the template itself -/

theorem found_directory_of_key {d : Directory} (h : ¬ d.key <:+: l) :
    found (directoryRegexp d (v.pgOld d)) l = false := by
  refine Bool.eq_false_iff.mpr fun hfound => h ?_
  obtain ⟨a, b, rfl, hsome⟩ := exists_of_found hfound
  obtain ⟨rest, rfl, -⟩ := key_of_directoryRegexp hsome
  exact ⟨a, rest, by rw [List.append_assoc]⟩

/-- A line that has neither a key of a directory nor a removed parameter. -/
def Plain (l : Line) : Prop :=
  (∀ d ∈ [Directory.data, .bin, .config], ¬ d.key <:+: l) ∧
    found walKeepSegmentsRegexp l = false ∧ ∀ x ∈ removedParameters, isParameter x.1 l = false

instance (l : Line) : Decidable (Plain l) :=
  inferInstanceAs (Decidable (_ ∧ _))

theorem Plain.untouched (h : Plain l) : Untouched v l where
  directories := fun d => found_directory_of_key (h.1 d (mem_directories d))
  removed := fun x hx _ => h.2.2 x hx

theorem plain_templateLines : Plain [] ∧ Plain parametersLine ∧ Plain standbyClusterLine ∧
    Plain (indented 4 "slots:".toList) ∧ Plain initdbLine := by
  decide +kernel

/-! ## The edits of lines -/

/-- What the edits before the cut make of lines. -/
def edited (v : Vars) (ls : List Line) : List Line :=
  (ls.map (replaceAll v.pgOld v.pgNew)).filter fun l => !deletes v deleted l

theorem edited_append (v : Vars) (xs ys : List Line) :
    edited v (xs ++ ys) = edited v xs ++ edited v ys := by
  rw [edited, List.map_append, List.filter_append, edited, edited]

theorem replaceAll_eq_self (h : ∀ d, found (directoryRegexp d (v.pgOld d)) l = false) :
    replaceAll v.pgOld v.pgNew l = l := by
  simp only [replaceAll, List.foldl_cons, List.foldl_nil, replaceDirectory, replace_eq_self (h _)]

theorem deletes_untouched (h : Untouched v l) : deletes v deleted l = false := by
  refine List.any_eq_false.mpr fun x hx hp => ?_
  obtain ⟨hcrosses, hset⟩ := Bool.and_eq_true_iff.mp hp
  exact Bool.false_ne_true ((h.removed x (mem_removedParameters hx) hcrosses).symm.trans hset)

theorem edited_untouched (h : ∀ l ∈ ls, Untouched v l) : edited v ls = ls := by
  have hmap : ls.map (replaceAll v.pgOld v.pgNew) = ls := by
    rw [List.map_congr_left fun l hl => replaceAll_eq_self (h l hl).directories]
    exact List.map_id' _
  rw [edited, hmap]
  refine List.filter_eq_self.mpr fun l hl => ?_
  rw [deletes_untouched (h l hl)]
  rfl

theorem edited_cons_untouched (h : Untouched v l) : edited v (l :: ls) = l :: edited v ls := by
  rw [← List.singleton_append, edited_append,
    edited_untouched fun x hx => List.mem_singleton.mp hx ▸ h]
  rfl

theorem edited_parameters {ps : List Parameter}
    (h : ∀ p ∈ ps, ∀ d, found (directoryRegexp d (v.pgOld d)) (p.line n) = false) :
    edited v (ps.map (Parameter.line n)) =
      (ps.filter fun p => !isDeleted v p).map (Parameter.line n) := by
  have hmap : (ps.map (Parameter.line n)).map (replaceAll v.pgOld v.pgNew) =
      ps.map (Parameter.line n) := by
    rw [List.map_map]
    exact List.map_congr_left fun p hp => replaceAll_eq_self (h p hp)
  rw [edited, hmap, List.filter_map]
  refine congrArg (List.map (Parameter.line n)) (List.filter_congr fun p _ => ?_)
  exact congrArg not deletes_line

theorem edited_directoryLines (ho : Ordinary v t) :
    edited v t.directoryLines = { t with paths := updatedPaths v t }.directoryLines := by
  have hmap : t.directoryLines.map (replaceAll v.pgOld v.pgNew) =
      { t with paths := updatedPaths v t }.directoryLines := by
    rw [Template.directoryLines, List.map_map]
    exact List.map_congr_left fun d _ =>
      replaceAll_directoryLine v.pgOld v.pgNew 2 d (ho.scalars d) (ho.simple d).2.scalar
  rw [edited, hmap]
  refine List.filter_eq_self.mpr fun l hl => ?_
  obtain ⟨d, -, rfl⟩ := List.mem_map.mp hl
  have hdeletes : deletes v deleted (directoryLine 2 d (updatedPaths v t d)) = false := by
    refine List.any_eq_false.mpr fun x hx hp => ?_
    have hset := (Bool.and_eq_true_iff.mp hp).2
    rw [isParameter_directoryLine (mem_removedParameters hx)] at hset
    cases hset
  show (!deletes v deleted (directoryLine 2 d (updatedPaths v t d))) = true
  rw [hdeletes]
  rfl

theorem statsKey_name : statsKey ≠ [] ∧ statsKey.all isIdentifier = true := by
  decide +kernel

theorem mem_statsLines : l ∈ t.statsLines ↔
    ∃ path, t.statsTempDirectory = some path ∧ l = keyed 4 statsKey path := by
  rw [Template.statsLines, Option.mem_toList, Option.map_eq_some_iff]
  exact exists_congr fun path => and_congr_right fun _ => eq_comm

theorem isParameter_stats {x : String × ℕ} (hx : x ∈ removedParameters) (text : Line) :
    isParameter x.1 (keyed n statsKey text) = true ↔ x.1.toList = statsKey :=
  isParameter_keyed statsKey_name.1 statsKey_name.2 (names_colon x hx)

theorem deletes_stats (text : Line) :
    deletes v deleted (keyed n statsKey text) = v.crosses 15 := by
  rw [Bool.eq_iff_iff, deletes, List.any_eq_true]
  constructor
  · rintro ⟨x, hx, hp⟩
    have hmem := mem_removedParameters hx
    obtain ⟨hcrosses, hset⟩ := Bool.and_eq_true_iff.mp hp
    rw [← (removedParameters_names x hmem).2.2 ((isParameter_stats hmem text).mp hset)]
    exact hcrosses
  · intro hcrosses
    have hmem : ("stats_temp_directory", 15) ∈ deleted := by
      decide
    refine ⟨_, hmem, Bool.and_eq_true_iff.mpr ⟨hcrosses, ?_⟩⟩
    exact (isParameter_stats (mem_removedParameters hmem) text).mpr rfl

theorem edited_statsLines (ho : Ordinary v t) :
    edited v t.statsLines = if v.crosses 15 then [] else t.statsLines := by
  have hmap : t.statsLines.map (replaceAll v.pgOld v.pgNew) = t.statsLines := by
    rw [List.map_congr_left fun l hl =>
      replaceAll_eq_self (ho.settings l (List.mem_append_right _ hl))]
    exact List.map_id' _
  rw [edited, hmap]
  have hdeletes : ∀ l ∈ t.statsLines, deletes v deleted l = v.crosses 15 := by
    intro l hl
    obtain ⟨path, -, rfl⟩ := mem_statsLines.mp hl
    exact deletes_stats path
  split
  · next hcrosses =>
    refine List.filter_eq_nil_iff.mpr fun l hl => ?_
    rw [hdeletes l hl, hcrosses]
    decide
  · next hcrosses =>
    refine List.filter_eq_self.mpr fun l hl => ?_
    rw [hdeletes l hl, Bool.eq_false_iff.mpr hcrosses]
    rfl

/-! ## The rendered file before the cut -/

theorem optionalLines_untouched (ho : Ordinary v t) : ∀ l ∈ t.optionalLines, Untouched v l := by
  obtain ⟨hnil, -, hstandby, hslots, -⟩ := plain_templateLines
  intro l hl
  rw [Template.optionalLines, List.mem_append, List.mem_append] at hl
  rcases hl with (hl | hl) | hl
  · rw [StandbyCluster.section] at hl
    split at hl
    · exact absurd hl List.not_mem_nil
    · next hhost =>
      rcases List.mem_cons.mp hl with rfl | hl
      · exact hstandby.untouched
      · refine ho.others l ?_
        simp only [otherLines, standbyLines, if_neg hhost, List.mem_append, hl, or_true, true_or]
  · rcases mem_slotsSection hl with rfl | hl
    · exact hslots.untouched
    · refine ho.others l ?_
      simp only [otherLines, slotLines, List.mem_append, hl, or_true, true_or]
  · rw [List.mem_singleton.mp hl]
    exact hnil.untouched

theorem edited_render (ho : Ordinary v t) : edited v t.render =
    keptDcsLines v t ++ t.optionalLines ++ initdbLine :: keptRemainingLines v t := by
  obtain ⟨-, hparameters, -, -, hinitdbLine⟩ := plain_templateLines
  have hothers : ∀ ls : List Line, (∀ l ∈ ls, l ∈ otherLines t) → edited v ls = ls :=
    fun ls hls => edited_untouched fun l hl => ho.others l (hls l hl)
  have hbeginning := hothers t.beginning fun l hl => by simp [otherLines, hl]
  have hinitdb := hothers t.initdb fun l hl => by simp [otherLines, hl]
  have hpostgresql := hothers t.postgresql fun l hl => by simp [otherLines, hl]
  have hending := hothers t.ending fun l hl => by simp [otherLines, hl]
  have hdcs : edited v (t.postgresqlParameters.map (Parameter.line 8)) =
      keptParameters v 8 t.postgresqlParameters :=
    edited_parameters fun p hp => ho.settings (p.line 8) (by simp only [settingLines,
      List.mem_append, List.mem_map_of_mem hp, true_or])
  have hlocal : edited v (t.localPostgresqlParameters.map (Parameter.line 4)) =
      keptParameters v 4 t.localPostgresqlParameters :=
    edited_parameters fun p hp => ho.settings (p.line 4) (by simp only [settingLines,
      List.mem_append, List.mem_map_of_mem hp, true_or, or_true])
  rw [Template.render, Template.dcsLines, edited_append, edited_append, edited_append, hbeginning,
    edited_cons_untouched hparameters.untouched, hdcs,
    edited_untouched (optionalLines_untouched ho), edited_cons_untouched hinitdbLine.untouched,
    Template.remainingLines, edited_append, edited_append, edited_append, edited_append,
    edited_append, hinitdb, edited_directoryLines ho, hpostgresql, hlocal, edited_statsLines ho,
    hending]
  rfl

/-- The lines of a rendered file, each of one kind. -/
theorem mem_render (hl : l ∈ t.render) : l ∈ otherLines t ∨
    l ∈ [[], parametersLine, standbyClusterLine, indented 4 "slots:".toList, initdbLine] ∨
    (∃ n, ∃ p ∈ parameters t, l = p.line n ∧ l ∈ settingLines t) ∨
    (∃ d, l = directoryLine 2 d (t.paths d)) ∨ l ∈ t.statsLines := by
  rw [Template.render, List.mem_append, List.mem_append, List.mem_cons] at hl
  rcases hl with (hl | hl) | rfl | hl
  · rw [Template.dcsLines, List.mem_append, List.mem_cons] at hl
    rcases hl with hl | rfl | hl
    · exact Or.inl (by simp [otherLines, hl])
    · exact Or.inr (Or.inl (by simp))
    · obtain ⟨p, hp, hline⟩ := List.mem_map.mp hl
      refine Or.inr (Or.inr (Or.inl ⟨8, p, List.mem_append_left _ hp, hline.symm, ?_⟩))
      exact List.mem_append_left _ (List.mem_append_left _ hl)
  · rw [Template.optionalLines, List.mem_append, List.mem_append] at hl
    rcases hl with (hl | hl) | hl
    · rw [StandbyCluster.section] at hl
      split at hl
      · exact absurd hl List.not_mem_nil
      · next hhost =>
        rcases List.mem_cons.mp hl with rfl | hl
        · exact Or.inr (Or.inl (by simp))
        · exact Or.inl (by simp [otherLines, standbyLines, hhost, hl])
    · rcases mem_slotsSection hl with rfl | hl
      · exact Or.inr (Or.inl (by simp))
      · exact Or.inl (by simp only [otherLines, slotLines, List.mem_append, hl, or_true, true_or])
    · exact Or.inr (Or.inl (by simp [List.mem_singleton.mp hl]))
  · exact Or.inr (Or.inl (by simp))
  · simp only [Template.remainingLines, List.mem_append] at hl
    rcases hl with ((((hl | hl) | hl) | hl) | hl) | hl
    · exact Or.inl (by simp [otherLines, hl])
    · obtain ⟨d, -, rfl⟩ := List.mem_map.mp hl
      exact Or.inr (Or.inr (Or.inr (Or.inl ⟨d, rfl⟩)))
    · exact Or.inl (by simp [otherLines, hl])
    · obtain ⟨p, hp, hline⟩ := List.mem_map.mp hl
      refine Or.inr (Or.inr (Or.inl ⟨4, p, List.mem_append_right _ hp, hline.symm, ?_⟩))
      exact List.mem_append_left _ (List.mem_append_right _ hl)
    · exact Or.inr (Or.inr (Or.inr (Or.inr hl)))
    · exact Or.inl (by simp [otherLines, hl])

/-- A rendered file has no number of wal_keep_segments: the template puts it in quotes. -/
theorem found_walKeepSegments_render (ho : Ordinary v t) (hrenames : Renames v ⟨t.render, []⟩) :
    ∀ l ∈ t.render, found walKeepSegmentsRegexp (replaceAll v.pgOld v.pgNew l) = false := by
  obtain ⟨hlines, hvalues⟩ := ho.segments hrenames
  have hplain : ∀ l ∈ [[], parametersLine, standbyClusterLine, indented 4 "slots:".toList,
      initdbLine], Plain l := by
    decide +kernel
  intro l hl
  rcases mem_render hl with hl | hl | ⟨n, p, hp, rfl, hline⟩ | ⟨d, rfl⟩ | hl
  · rw [replaceAll_eq_self (ho.others l hl).directories]
    exact hlines l (List.mem_append_left _ hl)
  · rw [replaceAll_eq_self (hplain l hl).untouched.directories]
    exact (hplain l hl).2.1
  · rw [replaceAll_eq_self (ho.settings _ hline)]
    exact found_walKeepSegments_line (hvalues p hp)
  · rw [replaceAll_directoryLine _ _ 2 d (ho.scalars d) (ho.simple d).2.scalar]
    exact found_walKeepSegments_directoryLine d
      (isScalar_rewritten (ho.simple d).2.scalar (ho.scalars d))
  · rw [replaceAll_eq_self (ho.settings l (List.mem_append_right _ hl))]
    exact hlines l (List.mem_append_right _ hl)

end PatroniConfigPrepared
