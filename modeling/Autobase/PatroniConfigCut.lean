import Autobase.PatroniConfigPrepared

/-! # The cut of the standby cluster

What the update leaves of a rendered file is known line by line once the standby cluster is cut
out, and so is when the file is prepared for the new version. -/
namespace PatroniConfigPrepared

open LineEdits PatroniConfigBackup PatroniPaths PatroniTemplate PatroniConfigUpgrade

variable {v : Vars} {t : Template} {n : ℕ} {p : Parameter} {l : Line} {ls : List Line}

/-! ## Settings of lists of lines -/

theorem settings_append (xs ys : List Line) : settings (xs ++ ys) = settings xs ++ settings ys :=
  List.filter_append _ _

theorem mem_settings : l ∈ settings ls ↔ l ∈ ls ∧ standbyCluster.blank l = false := by
  rw [settings, List.mem_filter, Bool.not_eq_true']

theorem blank_of_mem {c : Char} (hmem : c ∈ l) (hc : isSpace c = false) :
    standbyCluster.blank l = false := by
  refine Bool.eq_false_iff.mpr fun hblank => ?_
  exact Bool.false_ne_true (hc.symm.trans (List.all_eq_true.mp hblank c hmem))

theorem blank_keyed (n : ℕ) (key text : Line) : standbyCluster.blank (keyed n key text) = false :=
  blank_of_mem (c := ':') (by simp [keyed, indented]) (by decide)

theorem isParameter_blank (name : String) (h : standbyCluster.blank l = true) :
    isParameter name l = false := by
  refine Bool.eq_false_iff.mpr fun hp => ?_
  obtain ⟨rest, hrest⟩ := List.isPrefixOf_iff_prefix.mp hp
  have hcolon : ':' ∈ l.dropWhile isBlankByte := by
    rw [← hrest]
    simp
  have hfalse := blank_of_mem (c := ':') ((List.dropWhile_sublist _).subset hcolon) (by decide)
  exact Bool.false_ne_true (hfalse.symm.trans h)

/-! ## First lines of a section -/

theorem mem_keptParameters {ps : List Parameter} : l ∈ keptParameters v n ps ↔
    ∃ p ∈ ps, isDeleted v p = false ∧ l = p.line n := by
  rw [keptParameters, List.mem_map]
  constructor
  · rintro ⟨p, hp, rfl⟩
    obtain ⟨hmem, hkept⟩ := List.mem_filter.mp hp
    exact ⟨p, hmem, by simpa using hkept, rfl⟩
  · rintro ⟨p, hmem, hkept, rfl⟩
    exact ⟨p, List.mem_filter.mpr ⟨hmem, by simpa using hkept⟩, rfl⟩

/-- Of the lines of the template only the last one has the mark, and none of these begins the
cut. -/
theorem first_mark_templateLines :
    (standbyCluster.first [] = false ∧ standbyCluster.mark [] = none) ∧
      (standbyCluster.first (indented 4 "slots:".toList) = false ∧
        standbyCluster.mark (indented 4 "slots:".toList) = none) ∧
      standbyCluster.first initdbLine = false ∧
        standbyCluster.mark initdbLine =
          some "  # List options to be passed on to initdb".toList := by
  decide +kernel

theorem keptDcsLines_sublist (v : Vars) (t : Template) :
    (keptDcsLines v t).Sublist t.dcsLines :=
  (((List.filter_sublist).map (Parameter.line 8)).cons_cons parametersLine).append_left t.beginning

theorem first_keptDcsLines (ho : Ordinary v t) :
    ∀ l ∈ keptDcsLines v t, standbyCluster.first l = false :=
  fun l hl => ho.above l (List.mem_append_left _ hl)

theorem first_slotsSection (ho : Ordinary v t) (hhost : t.patroniStandbyCluster.host = []) :
    ∀ l ∈ slotsSection t.patroniSlots ++ [[]], standbyCluster.first l = false := by
  intro l hl
  rcases List.mem_append.mp hl with hl | hl
  · rcases mem_slotsSection hl with rfl | hl
    · exact first_mark_templateLines.2.1.1
    · refine ho.above l (List.mem_append_right _ ?_)
      rw [if_pos hhost]
      exact hl
  · rw [List.mem_singleton.mp hl]
    exact first_mark_templateLines.1.1

/-- No line between the key of the standby cluster and the one of initdb has the mark. -/
theorem mark_sections (ho : Ordinary v t) (hhost : t.patroniStandbyCluster.host ≠ []) :
    ∀ l ∈ t.patroniStandbyCluster.lines ++ slotsSection t.patroniSlots ++ [[]],
      standbyCluster.mark l = none := by
  intro l hl
  rw [List.mem_append, List.mem_append] at hl
  rcases hl with (hl | hl) | hl
  · exact ho.sections hhost l (List.mem_append_left _ hl)
  · rcases mem_slotsSection hl with rfl | hl
    · exact first_mark_templateLines.2.1.2
    · exact ho.sections hhost l (List.mem_append_right _ hl)
  · rw [List.mem_singleton.mp hl]
    exact first_mark_templateLines.1.2

/-! ## The updated file -/

/-- The lines of the updated file, up to blank ones: with a standby cluster the slots are gone. -/
def leftLines (v : Vars) (t : Template) : List Line :=
  keptDcsLines v t ++
    (if t.patroniStandbyCluster.host = [] then slotsSection t.patroniSlots else []) ++
    initdbLine :: keptRemainingLines v t

theorem update_render (ho : Ordinary v t) : update v ⟨t.render, []⟩ =
    standbyCluster.cut "  initdb:".toList
      ⟨keptDcsLines v t ++ t.optionalLines ++ initdbLine :: keptRemainingLines v t, []⟩ := by
  rw [update_eq ho.simple (found_walKeepSegments_render ho), ← edited_render ho]
  rfl

theorem settings_updated (ho : Ordinary v t) :
    settings (updated v t) = settings (leftLines v t) := by
  have hblank : settings [[]] = [] := by
    decide +kernel
  rw [updated, update_render ho, leftLines]
  have hbelow : standbyCluster.occurs (keptRemainingLines v t) [] = false :=
    Section.occurs_eq_false ho.below first_mark_templateLines.1.2
  by_cases hhost : t.patroniStandbyCluster.host = []
  · have habove : ∀ l ∈ keptDcsLines v t ++ (slotsSection t.patroniSlots ++ [[]]) ++ [initdbLine],
        standbyCluster.first l = false := by
      intro l hl
      rcases List.mem_append.mp hl with hl | hl
      · rcases List.mem_append.mp hl with hl | hl
        · exact first_keptDcsLines ho l hl
        · exact first_slotsSection ho hhost l hl
      · rw [List.mem_singleton.mp hl]
        exact first_mark_templateLines.2.2.1
    have hnone := Section.occurs_append habove hbelow
    have hlines : keptDcsLines v t ++ t.optionalLines ++ initdbLine :: keptRemainingLines v t =
        keptDcsLines v t ++ (slotsSection t.patroniSlots ++ [[]]) ++ [initdbLine] ++
          keptRemainingLines v t := by
      rw [Template.optionalLines, StandbyCluster.section, if_pos hhost, List.nil_append,
        List.append_cons]
    rw [hlines, Section.cut_eq_self hnone, File.all, if_pos hhost,
      List.append_cons _ initdbLine (keptRemainingLines v t)]
    simp only [settings_append, hblank, List.append_nil]
  · have hmark := first_mark_templateLines.2.2.2
    have hnew : "  initdb:".toList ++ "  # List options to be passed on to initdb".toList =
        initdbLine := by
      decide +kernel
    have hopening : standbyCluster.blank standbyClusterLine = false ∧
        standbyCluster.first standbyClusterLine = true := by
      decide +kernel
    obtain ⟨kept, hcut, hkept⟩ := @Section.cut_section _ standbyCluster "  initdb:".toList
      _ _ _ [] _ _ _ (first_keptDcsLines ho) hopening.1 hopening.2 (mark_sections ho hhost)
      hmark hbelow
    have hlines : keptDcsLines v t ++ t.optionalLines ++ initdbLine :: keptRemainingLines v t =
        keptDcsLines v t ++ standbyClusterLine ::
          ((t.patroniStandbyCluster.lines ++ slotsSection t.patroniSlots ++ [[]]) ++
            initdbLine :: keptRemainingLines v t) := by
      rw [Template.optionalLines, StandbyCluster.section, if_neg hhost]
      simp only [List.append_assoc, List.cons_append]
    have hdcs : settings kept = settings (keptDcsLines v t) := hkept
    rw [hlines, hcut, File.all, hnew, if_neg hhost, List.append_nil]
    simp only [settings_append, hblank, List.append_nil, hdcs]

/-! ## The prepared file -/

theorem filterMap_converted {ps : List Parameter}
    (h : v.crosses 13 = true → ∀ p ∈ ps, p.option ≠ walKeepSegments) :
    ps.filterMap (converted v n) = keptParameters v n ps := by
  induction ps with
  | nil => rfl
  | cons p ps ih =>
    have hrest := ih fun hc q hq => h hc q (List.mem_cons_of_mem _ hq)
    cases hdeleted : isDeleted v p with
    | true =>
      have hnone : converted v n p = none := if_pos hdeleted
      rw [List.filterMap_cons_none hnone, hrest, keptParameters, keptParameters,
        List.filter_cons_of_neg (by simp [hdeleted])]
    | false =>
      have hsome : converted v n p = some (p.line n) := by
        rw [converted, if_neg (by simp [hdeleted]),
          if_neg fun hc => h hc.1 p List.mem_cons_self hc.2]
      rw [List.filterMap_cons_some hsome, hrest, keptParameters, keptParameters,
        List.filter_cons_of_pos (by simp [hdeleted]), List.map_cons]

/-- Without wal_keep_segments the prepared file has the lines that are kept and the slots. -/
theorem upgraded_eq (h : v.crosses 13 = true →
    ∀ p ∈ parameters t, p.option ≠ walKeepSegments)
    (paths : Directory → Path) : upgraded v t paths =
      keptDcsLines v t ++ slotsSection t.patroniSlots ++
        initdbLine :: (t.initdb ++ { t with paths := paths }.directoryLines ++ t.postgresql ++
          keptParameters v 4 t.localPostgresqlParameters ++
          (if v.crosses 15 then [] else t.statsLines) ++ t.ending) := by
  rw [upgraded, keptDcsLines,
    filterMap_converted fun hc p hp => h hc p (List.mem_append_left _ hp),
    filterMap_converted fun hc p hp => h hc p (List.mem_append_right _ hp)]

theorem line_mem_leftLines (hdeleted : isDeleted v p = false)
    (hp : p ∈ parameters t) :
    ∃ n, p.line n ∈ leftLines v t := by
  rcases List.mem_append.mp hp with hp | hp
  · have hline : p.line 8 ∈ keptParameters v 8 t.postgresqlParameters :=
      mem_keptParameters.mpr ⟨p, hp, hdeleted, rfl⟩
    exact ⟨8, by simp only [leftLines, keptDcsLines, List.mem_append, List.mem_cons, hline, or_true,
      true_or]⟩
  · have hline : p.line 4 ∈ keptParameters v 4 t.localPostgresqlParameters :=
      mem_keptParameters.mpr ⟨p, hp, hdeleted, rfl⟩
    exact ⟨4, by simp only [leftLines, keptRemainingLines, List.mem_append, List.mem_cons, hline,
      or_true, true_or]⟩

theorem walKeepSegments_kept (h : p.option = walKeepSegments) : isDeleted v p = false := by
  have hnames : ∀ x ∈ deleted, x.1.toList ≠ walKeepSegments := by
    decide +kernel
  refine List.any_eq_false.mpr fun x hx hp => hnames x hx ?_
  rw [← h]
  exact of_decide_eq_true (Bool.and_eq_true_iff.mp hp).2

/-- The line of a parameter that is kept sets no removed one. -/
theorem isParameter_kept (hs : v.crosses 13 = true → p.option ≠ walKeepSegments)
    (hkept : isDeleted v p = false) {x : String × ℕ} (hx : x ∈ removedParameters)
    (hcrosses : v.crosses x.2 = true) : isParameter x.1 (p.line n) = false := by
  refine Bool.eq_false_iff.mpr fun hset => ?_
  have hoption := (isParameter_line hx).mp hset
  rcases List.mem_cons.mp hx with rfl | hdeleted
  · exact hs hcrosses hoption.symm
  · have hany : isDeleted v p = true :=
      List.any_eq_true.mpr ⟨x, hdeleted,
        Bool.and_eq_true_iff.mpr ⟨hcrosses, decide_eq_true hoption⟩⟩
    exact Bool.false_ne_true (hkept.symm.trans hany)

theorem isParameter_statsLines {x : String × ℕ} (hx : x ∈ removedParameters)
    (hcrosses : v.crosses x.2 = true) (hstats : ¬ v.crosses 15 = true) :
    ∀ l ∈ t.statsLines, isParameter x.1 l = false := by
  intro l hl
  obtain ⟨path, -, rfl⟩ := mem_statsLines.mp hl
  refine Bool.eq_false_iff.mpr fun hset => hstats ?_
  rw [← (removedParameters_names x hx).2.2 ((isParameter_stats hx path).mp hset)]
  exact hcrosses

/-- A parameter that is removed is not set in the lines that are left. -/
theorem removed_leftLines (ho : Ordinary v t) (hs : v.crosses 13 = true →
    ∀ p ∈ parameters t, p.option ≠ walKeepSegments)
    {x : String × ℕ} (hx : x ∈ removedParameters) (hcrosses : v.crosses x.2 = true) :
    ∀ l ∈ leftLines v t, isParameter x.1 l = false := by
  have hplain : ∀ l ∈ [[], parametersLine, indented 4 "slots:".toList, initdbLine], Plain l := by
    decide +kernel
  have hfixed : ∀ l ∈ [[], parametersLine, indented 4 "slots:".toList, initdbLine],
      isParameter x.1 l = false := fun l hl => (hplain l hl).2.2 x hx
  have hothers : ∀ l ∈ otherLines t, isParameter x.1 l = false :=
    fun l hl => (ho.others l hl).removed x hx hcrosses
  have hparameter : ∀ n, ∀ p ∈ parameters t, isDeleted v p = false →
      isParameter x.1 (p.line n) = false :=
    fun n p hp hkept => isParameter_kept (fun hc => hs hc p hp) hkept hx hcrosses
  intro l hl
  rw [leftLines, List.mem_append, List.mem_append, List.mem_cons] at hl
  rcases hl with (hl | hl) | rfl | hl
  · rw [keptDcsLines, List.mem_append, List.mem_cons] at hl
    rcases hl with hl | rfl | hl
    · exact hothers l (by simp [otherLines, hl])
    · exact hfixed _ (by simp)
    · obtain ⟨p, hp, hkept, rfl⟩ := mem_keptParameters.mp hl
      exact hparameter 8 p (List.mem_append_left _ hp) hkept
  · split at hl
    · rcases mem_slotsSection hl with rfl | hl
      · exact hfixed _ (by simp)
      · exact hothers l
          (by simp only [otherLines, slotLines, List.mem_append, hl, or_true, true_or])
    · exact absurd hl List.not_mem_nil
  · exact hfixed _ (by simp)
  · simp only [keptRemainingLines, List.mem_append] at hl
    rcases hl with ((((hl | hl) | hl) | hl) | hl) | hl
    · exact hothers l (by simp [otherLines, hl])
    · obtain ⟨d, -, rfl⟩ := List.mem_map.mp hl
      exact isParameter_directoryLine hx d _
    · exact hothers l (by simp [otherLines, hl])
    · obtain ⟨p, hp, hkept, rfl⟩ := mem_keptParameters.mp hl
      exact hparameter 4 p (List.mem_append_right _ hp) hkept
    · split at hl
      · exact absurd hl List.not_mem_nil
      · next hstats => exact isParameter_statsLines hx hcrosses hstats l hl
    · exact hothers l (by simp [otherLines, hl])

theorem settings_directoryLines (t : Template) : settings t.directoryLines = t.directoryLines := by
  refine List.filter_eq_self.mpr fun l hl => ?_
  obtain ⟨d, -, rfl⟩ := List.mem_map.mp hl
  rw [directoryLine_eq, blank_keyed]
  rfl

/-- The update of a rendered file without accidents prepares it exactly when wal_keep_segments is
not set on the way to 13 and a standby cluster has no slots. -/
theorem prepared_iff (ho : Ordinary v t) : Prepared v t ↔ Convertible v t := by
  have hleft := settings_updated ho
  constructor
  · intro hp
    have hsegments : v.crosses 13 = true →
        ∀ p ∈ parameters t,
          p.option ≠ walKeepSegments := by
      intro hcrosses p hmem hoption
      obtain ⟨n, hline⟩ := line_mem_leftLines (walKeepSegments_kept hoption) hmem
      have hsetting : p.line n ∈ settings (updated v t) := by
        rw [hleft]
        exact mem_settings.mpr ⟨hline, blank_keyed n _ _⟩
      have hwal : ("wal_keep_segments", 13) ∈ removedParameters := List.mem_cons_self
      have hnot := hp.removed _ hwal hcrosses _ (mem_settings.mp hsetting).1
      rw [(isParameter_line hwal).mpr hoption.symm] at hnot
      cases hnot
    refine ⟨hsegments, fun hhost => ?_⟩
    obtain ⟨paths, hpaths⟩ := hp.unchanged
    rw [hleft, leftLines, if_neg hhost, List.append_nil, upgraded_eq hsegments] at hpaths
    have hlength := congrArg List.length hpaths
    by_contra hslots
    have hslotsLine : indented 4 "slots:".toList ∈ settings (slotsSection t.patroniSlots) := by
      rw [slotsSection, if_neg hslots]
      exact mem_settings.mpr ⟨List.mem_cons_self, by decide +kernel⟩
    have hpos := List.length_pos_of_mem hslotsLine
    have hcons : ∀ ls : List Line, settings (initdbLine :: ls) = initdbLine :: settings ls :=
      fun ls => List.filter_cons_of_pos (by decide +kernel)
    simp only [keptRemainingLines, settings_append, List.length_append, hcons, List.length_cons,
      settings_directoryLines] at hlength
    simp only [Template.directoryLines, List.length_map] at hlength
    omega
  · intro hc
    refine ⟨fun x hx hcrosses l hl => ?_, updatedPaths v t, ?_⟩
    · by_cases hblank : standbyCluster.blank l = true
      · exact isParameter_blank x.1 hblank
      · have hsetting : l ∈ settings (leftLines v t) := by
          rw [← hleft]
          exact mem_settings.mpr ⟨hl, Bool.eq_false_iff.mpr hblank⟩
        exact removed_leftLines ho hc.segments hx hcrosses l (mem_settings.mp hsetting).1
    · rw [hleft, upgraded_eq hc.segments, leftLines, keptRemainingLines]
      by_cases hhost : t.patroniStandbyCluster.host = []
      · rw [if_pos hhost]
      · rw [if_neg hhost, slotsSection, if_pos (hc.slots hhost)]

/-! ## Samples -/

/-- An upgrade from one version to the next; the quoted number that awk prints is no number. -/
def nextVersion (old : ℕ) : Vars where
  pgOldVersion := old
  pgNewVersion := old + 1
  pgOld := Directory.choose "/pg/old/main".toList "/lib/old/bin".toList "/etc/old/main".toList
  pgNew := Directory.choose "/pg/new/main".toList "/lib/new/bin".toList "/etc/new/main".toList
  int := fun _ => 0
  sub := fun _ _ y => y

def eightSegments : Parameter where
  option := walKeepSegments
  value := ['8']
  named := by
    decide +kernel
  identifier := by
    decide +kernel
  oneLine := by
    decide

def noStandby : StandbyCluster := ⟨[], [], [], [], []⟩

def standby : StandbyCluster := ⟨"10.0.0.1".toList, "5432".toList, [], [], []⟩

def sample (standbyCluster : StandbyCluster) (slots : List Slot) : Template where
  beginning := ["  dcs:".toList, "    postgresql:".toList]
  postgresqlParameters := [eightSegments]
  patroniStandbyCluster := standbyCluster
  patroniSlots := slots
  initdb := ["    - encoding: UTF8".toList, "postgresql:".toList]
  paths := (nextVersion 0).pgOld
  postgresql := ["  parameters:".toList]
  localPostgresqlParameters := []
  statsTempDirectory := none
  ending := ["  nofailover: false".toList]

def logicalSlot : Slot := ⟨"report".toList, "logical".toList, "pgoutput".toList, "app".toList⟩

theorem nextVersion_simple (old : ℕ) : (nextVersion old).PathsSimple := by
  have hsample : (nextVersion 0).PathsSimple := by
    intro d
    cases d <;> decide +kernel
  exact hsample

theorem plain_sample : ∀ l ∈ otherLines (sample noStandby [logicalSlot]), Plain l := by
  decide +kernel

theorem sample_ordinary (old : ℕ) :
    Ordinary (nextVersion old) (sample noStandby [logicalSlot]) where
  simple := nextVersion_simple old
  scalars := fun d => (nextVersion_simple 0 d).1.scalar
  others := fun l hl => (plain_sample l hl).untouched
  settings := by
    intro l hl d
    have hline : ∀ l ∈ settingLines (sample noStandby [logicalSlot]),
        ∀ e ∈ [Directory.data, .bin, .config], ¬ e.key <:+: l := by
      decide +kernel
    exact found_directory_of_key (hline l hl d (mem_directories d))
  segments := by
    intro _
    have hvalues : ∀ p ∈ parameters (sample noStandby [logicalSlot]),
        found walKeepSegmentsRegexp (p.value ++ ['"']) = false := by
      decide +kernel
    refine ⟨fun l hl => ?_, hvalues⟩
    rcases List.mem_append.mp hl with hl | hl
    · exact (plain_sample l hl).2.1
    · exact absurd hl List.not_mem_nil
  above := by
    have hlines : ∀ l ∈ (sample noStandby [logicalSlot]).dcsLines ++
        slotLines (sample noStandby [logicalSlot]), standbyCluster.first l = false := by
      decide +kernel
    intro l hl
    refine hlines l ?_
    rcases List.mem_append.mp hl with hl | hl
    · exact List.mem_append_left _ ((keptDcsLines_sublist _ _).subset hl)
    · exact List.mem_append_right _ hl
  sections := fun hhost => absurd rfl hhost
  below := by
    have hlines : ∀ l ∈ keptRemainingLines (nextVersion 0) (sample noStandby [logicalSlot]),
        standbyCluster.first l = false := by
      decide +kernel
    have hsame : keptRemainingLines (nextVersion old) (sample noStandby [logicalSlot]) =
        keptRemainingLines (nextVersion 0) (sample noStandby [logicalSlot]) := by
      simp only [keptRemainingLines, Template.statsLines, sample, Option.map_none,
        Option.toList_none, ite_self]
      rfl
    rw [hsame]
    refine List.pairwise_of_forall_mem_list fun l hl l' _ hfirst => ?_
    exact absurd ((hlines l hl).symm.trans hfirst) Bool.false_ne_true

theorem sample_prepared_iff : Prepared (nextVersion 16) (sample noStandby [logicalSlot]) ↔
    Convertible (nextVersion 16) (sample noStandby [logicalSlot]) :=
  prepared_iff (sample_ordinary 16)

/-- From 12 to 13 the quoted number stays as it is, and with a standby cluster the slots go. -/
theorem segments_kept_and_slots_lost :
    eightSegments.line 8 ∈ updated (nextVersion 12) (sample noStandby []) ∧
      ¬ Prepared (nextVersion 12) (sample noStandby []) ∧
      indented 4 "slots:".toList ∉ updated (nextVersion 16) (sample standby [logicalSlot]) ∧
      ¬ Prepared (nextVersion 16) (sample standby [logicalSlot]) := by
  have hkept : eightSegments.line 8 ∈ updated (nextVersion 12) (sample noStandby []) := by
    decide +kernel
  have hlost : indented 4 "slots:".toList ∉
      updated (nextVersion 16) (sample standby [logicalSlot]) := by
    decide +kernel
  refine ⟨hkept, fun hp => ?_, hlost, fun hp => ?_⟩
  · have hnot := hp.removed ("wal_keep_segments", 13) List.mem_cons_self (by decide) _ hkept
    revert hnot
    decide +kernel
  · obtain ⟨paths, hpaths⟩ := hp.unchanged
    have hslots : indented 4 "slots:".toList ∈
        settings (upgraded (nextVersion 16) (sample standby [logicalSlot]) paths) := by
      refine mem_settings.mpr ⟨?_, by decide +kernel⟩
      rw [upgraded, List.mem_append, List.mem_append]
      exact Or.inl (Or.inr List.mem_cons_self)
    rw [← hpaths] at hslots
    exact hlost (mem_settings.mp hslots).1

end PatroniConfigPrepared
