import Autobase.PatroniTemplate

/-! # patroni.yml for the new version

The update of the configuration deletes the parameters that the new version does not have, renames
wal_keep_segments and cuts the standby cluster out of a file that the template has rendered. The
rename looks for a number without quotes, and the cut reaches down to initdb. -/
namespace PatroniConfigUpgrade

open LineEdits PatroniConfigBackup PatroniPaths PatroniTemplate

/-! ## The tasks -/

def deletedBefore13 : List (String × ℕ) :=
  [("replacement_sort_tuples", 11), ("default_with_oids", 12)]

def deletedFrom14 : List (String × ℕ) :=
  [("operator_precedence_warning", 14), ("vacuum_cleanup_index_scale_factor", 14),
    ("stats_temp_directory", 15), ("force_parallel_mode", 16), ("promote_trigger_file", 16),
    ("vacuum_defer_cleanup_age", 16), ("db_user_namespace", 17), ("old_snapshot_threshold", 17),
    ("trace_recovery_messages", 17), ("ssl_ecdh_curve", 18)]

def deleted : List (String × ℕ) := deletedBefore13 ++ deletedFrom14

/-- All parameters that the file lists as removed, with the version. -/
def removedParameters : List (String × ℕ) := ("wal_keep_segments", 13) :: deleted

def removal (x : String × ℕ) : Task := .removeParameter x.1 x.2

def update (v : Vars) (y : Yml) : Yml := updateConfig.foldl (fun y t => v.edit t y) y

def deletes (v : Vars) (xs : List (String × ℕ)) (line : Line) : Bool :=
  xs.any fun x => v.crosses x.2 && isParameter x.1 line

variable {v : Vars} {ls : List Line}

theorem edit_removal (x : String × ℕ) : v.edit (removal x) ⟨ls, []⟩ =
    ⟨ls.filter fun l => !(v.crosses x.2 && isParameter x.1 l), []⟩ := by
  rw [removal, Vars.edit]
  cases hcrosses : v.crosses x.2 with
  | false =>
    simp
  | true =>
    cases hgrep : (grep x.1 ⟨ls, []⟩).isEmpty with
    | false =>
      simp [File.delete, isParameter_nil]
    | true =>
      have hnone : ∀ l ∈ ls, isParameter x.1 l = false := by
        intro l hl
        refine Bool.eq_false_iff.mpr fun hp => ?_
        have hfound := grep_ne_nil (y := ⟨ls, []⟩) (List.mem_append_left _ hl) hp
        exact Bool.false_ne_true (hfound.symm.trans hgrep)
      have hfilter : ls.filter (fun l => !(true && isParameter x.1 l)) = ls :=
        List.filter_eq_self.mpr fun l hl => by rw [hnone l hl]; rfl
      rw [hfilter]
      rfl

theorem foldl_removals (xs : List (String × ℕ)) (ls : List Line) :
    (xs.map removal).foldl (fun y t => v.edit t y) ⟨ls, []⟩ =
      ⟨ls.filter fun l => !deletes v xs l, []⟩ := by
  induction xs generalizing ls with
  | nil => simp [deletes]
  | cons x xs ih =>
    rw [List.map_cons, List.foldl_cons, edit_removal, ih, List.filter_filter]
    congr 2
    funext l
    rw [deletes, deletes, List.any_cons, Bool.not_or, Bool.and_comm]

/-- The file that the rename of wal_keep_segments finds. -/
def beforeRename (v : Vars) (y : Yml) : Yml :=
  (updateConfig.take 6).foldl (fun y t => v.edit t y) y

/-- The rename is not skipped. -/
def Renames (v : Vars) (y : Yml) : Prop :=
  v.crosses 13 = true ∧ 0 < v.int (walKeepSegmentsOutput (beforeRename v y))

/-- The lines before the cut, when no number of wal_keep_segments is found in them. -/
theorem update_eq (hs : v.PathsSimple) (hwal : Renames v ⟨ls, []⟩ →
    ∀ l ∈ ls, found walKeepSegmentsRegexp (replaceAll v.pgOld v.pgNew l) = false) :
    update v ⟨ls, []⟩ = standbyCluster.cut "  initdb:".toList
      ⟨(ls.map (replaceAll v.pgOld v.pgNew)).filter fun l => !deletes v deleted l, []⟩ := by
  have htasks : updateConfig = updateConfig.take 6 ++
      ([.replaceWalKeepSegments] ++ deletedFrom14.map removal ++ [.removeStandbyCluster]) := rfl
  have hpaths : ([Directory.data, .bin, .config].map Task.replaceDirectory).foldl
      (fun y t => v.edit t y) ⟨ls, []⟩ = ⟨ls.map (replaceAll v.pgOld v.pgNew), []⟩ :=
    updatePaths_eq hs ⟨ls, []⟩
  have hfirst : beforeRename v ⟨ls, []⟩ = ⟨(ls.map (replaceAll v.pgOld v.pgNew)).filter
      fun l => !deletes v deletedBefore13 l, []⟩ := by
    have htake : updateConfig.take 6 = [Task.backup] ++
        ([Directory.data, .bin, .config].map .replaceDirectory) ++ deletedBefore13.map removal := rfl
    have hbackup : [Task.backup].foldl (fun y t => v.edit t y) ⟨ls, []⟩ = ⟨ls, []⟩ := rfl
    rw [beforeRename, htake, List.foldl_append, List.foldl_append, hbackup, hpaths,
      foldl_removals]
  have hkeep : [Task.replaceWalKeepSegments].foldl (fun y t => v.edit t y)
      (beforeRename v ⟨ls, []⟩) = beforeRename v ⟨ls, []⟩ := by
    simp only [List.foldl_cons, List.foldl_nil, Vars.edit]
    split
    · next hruns =>
      obtain ⟨hcrosses, hpositive⟩ := Bool.and_eq_true_iff.mp hruns
      have hnone := hwal ⟨hcrosses, of_decide_eq_true hpositive⟩
      refine File.map_eq_self fun l hl => replace_eq_self ?_
      rw [hfirst] at hl
      rcases List.mem_append.mp hl with hl | hl
      · obtain ⟨l', hl', rfl⟩ := List.mem_map.mp (List.mem_of_mem_filter hl)
        exact hnone l' hl'
      · rw [List.mem_singleton.mp hl]
        rfl
    · rfl
  have hdeleted : ∀ l, (!deletes v deletedFrom14 l && !deletes v deletedBefore13 l) =
      !deletes v deleted l := by
    intro l
    rw [deleted, deletes, deletes, deletes, List.any_append, Bool.not_or, Bool.and_comm]
  rw [update, htasks, List.foldl_append, ← beforeRename, List.foldl_append, List.foldl_append,
    hkeep, hfirst, foldl_removals, List.filter_filter]
  simp only [hdeleted]
  rfl

/-! ## Lines with a key -/

variable {n : ℕ} {key text before : Line} {name : String} {p : Parameter} {d : Directory}
  {path : Path}

theorem colon_notMem_of_identifier (h : key.all isIdentifier = true) : ':' ∉ key := fun hmem =>
  absurd (List.all_eq_true.mp h ':' hmem) (by decide)

theorem isBlankByte_of_isIdentifier {c : Char} (h : isIdentifier c = true) :
    isBlankByte c = false := by
  have hspace := isSpace_of_isIdentifier h
  simp only [isSpace, Bool.or_eq_false_iff] at hspace
  tauto

/-- A line of a key sets the parameter of that name only. -/
theorem isParameter_keyed (hne : key ≠ []) (hid : key.all isIdentifier = true)
    (hname : ':' ∉ name.toList) :
    isParameter name (keyed n key text) = true ↔ name.toList = key := by
  obtain ⟨c, rest, rfl⟩ := List.exists_cons_of_ne_nil hne
  have hc := List.all_eq_true.mp hid c List.mem_cons_self
  rw [isParameter, keyed, List.cons_append,
    dropWhile_indented (by decide) (isBlankByte_of_isIdentifier hc), ← List.cons_append,
    isPrefixOf_keyed hname (colon_notMem_of_identifier hid)]

/-! ## Matches in a quoted value -/

/-- A match that has no quote behind its colon begins in the value. -/
theorem found_quoted {m : Matcher Char} {c₀ : Char} {cs : Line}
    (hm : ∀ b, (m b).isSome → ∃ c rest, b = (c₀ :: cs) ++ ':' :: ' ' :: c :: rest ∧ c ≠ '"')
    (hname : ':' ∉ c₀ :: cs) (hspace : c₀ ≠ ' ') (hquote : c₀ ≠ '"') (hbefore : ':' ∉ before)
    (h : found m (before ++ ':' :: ' ' :: '"' :: text) = true) : found m text = true := by
  obtain ⟨a, b, hline, hsome⟩ := exists_of_found h
  obtain ⟨c, rest, rfl, hc⟩ := hm b hsome
  rw [← List.append_assoc] at hline
  rcases List.append_eq_append_iff.mp hline with ⟨w, hw, hrest⟩ | ⟨w, hw, hrest⟩
  · cases w with
    | nil =>
      simp only [List.nil_append, List.cons.injEq, true_and] at hrest
      exact absurd hrest.1.symm hc
    | cons x w =>
      -- the match begins behind the first colon of the line
      obtain ⟨rfl, htail⟩ := List.cons.inj hrest
      rcases List.append_eq_append_iff.mp hw with ⟨u, -, hu⟩ | ⟨u, hu, hw'⟩
      · refine absurd ?_ hname
        rw [hu]
        exact List.mem_append_right _ List.mem_cons_self
      · cases u with
        | nil =>
          refine absurd ?_ hname
          rw [← List.nil_append (c₀ :: cs), ← hw']
          exact List.mem_cons_self
        | cons x u =>
          obtain ⟨rfl, rfl⟩ := List.cons.inj hw'
          have hvalue : ' ' :: '"' :: text = u ++ ((c₀ :: cs) ++ ':' :: ' ' :: c :: rest) :=
            htail.trans (List.append_assoc _ _ _)
          match u, hvalue with
          | [], htail => exact absurd (List.cons.inj htail).1.symm hspace
          | [x], htail =>
            exact absurd (List.cons.inj (List.cons.inj htail).2).1.symm hquote
          | x :: y :: u, htail =>
            obtain ⟨-, htail⟩ := List.cons.inj htail
            obtain ⟨-, rfl⟩ := List.cons.inj htail
            exact found_of (List.append_ne_nil_of_left_ne_nil (List.cons_ne_nil _ _) _) hsome
  · cases w with
    | nil =>
      simp only [List.nil_append, List.cons.injEq, true_and] at hrest
      exact absurd hrest.1 hc
    | cons x w =>
      obtain ⟨rfl, -⟩ := List.cons.inj hrest
      refine absurd ?_ hbefore
      rw [hw]
      exact List.mem_append_right _ List.mem_cons_self

theorem walKeepSegmentsRegexp_some {b : Line} (h : (walKeepSegmentsRegexp b).isSome) :
    ∃ c rest, b = "wal_keep_segments".toList ++ ':' :: ' ' :: c :: rest ∧ c ≠ '"' := by
  rw [walKeepSegmentsRegexp] at h
  split at h
  · next hif =>
    obtain ⟨hstarts, hdigits⟩ := Bool.and_eq_true_iff.mp hif
    obtain ⟨rest, rfl⟩ := List.isPrefixOf_iff_prefix.mp hstarts
    rw [List.drop_left] at hdigits
    cases rest with
    | nil => cases hdigits
    | cons c rest =>
      refine ⟨c, rest, ?_, ?_⟩
      · have hkey : "wal_keep_segments: ".toList = "wal_keep_segments".toList ++ [':', ' '] := by
          decide
        rw [hkey, List.append_assoc]
        rfl
      · rintro rfl
        rw [List.takeWhile_cons_of_neg (by decide)] at hdigits
        cases hdigits
  · cases h

end PatroniConfigUpgrade
