import Autobase.DirectoryPaths

/-! # The directories an upgrade removes

The paths of the old and new version are derived from those of the current one by a textual
replacement of the version. The pre-checks compare texts, the removals work on directories. -/
namespace UpgradeDirectories

open DirectoryPaths

/-! ## Configuration -/

/-- The variables, with the explicit overrides of the derived ones. -/
structure Config where
  postgresqlVersion : Text
  pgOldVersion : Text
  pgNewVersion : Text
  postgresqlDataDir : Text
  postgresqlConfDir : Text
  postgresqlWalDir : Text
  oldDatadir : Option Text
  newDatadir : Option Text
  oldConfdir : Option Text
  newConfdir : Option Text
  newWalDir : Option Text

namespace Config

variable (c : Config)

def derived (path version : Text) : Text := replace c.postgresqlVersion version (stripSlash path)

def pgOldDatadir : Text := c.oldDatadir.getD (c.derived c.postgresqlDataDir c.pgOldVersion)

def pgNewDatadir : Text := c.newDatadir.getD (c.derived c.postgresqlDataDir c.pgNewVersion)

def pgOldConfdir : Text := c.oldConfdir.getD (c.derived c.postgresqlConfDir c.pgOldVersion)

def pgNewConfdir : Text := c.newConfdir.getD (c.derived c.postgresqlConfDir c.pgNewVersion)

def pgNewWalDir : Text := c.newWalDir.getD (c.derived c.postgresqlWalDir c.pgNewVersion)

/-- The path that post_upgrade removes as the old WAL directory. -/
def oldWalDir : Text := c.derived c.postgresqlWalDir c.pgOldVersion

end Config

/-! ## Versions -/

inductive Component where
  | number (n : ℕ)
  | word (t : Text)
  deriving DecidableEq

/-- Digits, small letters, dots and the rest. -/
def kind (ch : Char) : Fin 4 :=
  if ch.isDigit then 0 else if ch.isLower then 1 else if ch = '.' then 2 else 3

def component (run : Text) : Option Component :=
  match run.head?.map kind with
  | some 0 => some (.number (run.foldl (fun n ch => 10 * n + (ch.toNat - 48)) 0))
  | some 2 => none
  | _ => some (.word run)

/-- The components of a loose version: its runs without the dots. -/
def looseVersion (t : Text) : List Component :=
  (t.splitBy fun a b => kind a == kind b).filterMap component

/-- Whether one version comes before another; numbers and words do not compare. -/
def before : List Component → List Component → Option Bool
  | [], [] => some false
  | [], _ :: _ => some true
  | _ :: _, [] => some false
  | a :: as, b :: bs =>
    if a = b then before as bs
    else match a, b with
      | .number m, .number n => some (decide (m < n))
      | .word s, .word t => some (decide (s < t))
      | _, _ => none

/-! ## Pre-checks -/

/-- What the running cluster answers: its version and its data directory. -/
structure Server where
  currentVersion : Text
  showDataDirectory : Text

def blanks : List ℕ :=
  [9, 10, 11, 12, 13, 28, 29, 30, 31, 32, 0x85, 0xa0, 0x1680, 0x2000, 0x2001, 0x2002, 0x2003,
    0x2004, 0x2005, 0x2006, 0x2007, 0x2008, 0x2009, 0x200a, 0x2028, 0x2029, 0x202f, 0x205f, 0x3000]

def isBlank (ch : Char) : Bool := blanks.contains ch.toNat

def trim (t : Text) : Text :=
  ((t.dropWhile isBlank).reverse.dropWhile isBlank).reverse

def Server.currentDatadir (s : Server) : Text := trim s.showDataDirectory

/-- The name of the first task of the pre-checks that fails on the configuration. -/
def preChecks (c : Config) (s : Server) : Option String :=
  if c.pgOldVersion = [] ∨ c.pgNewVersion = [] then
    some "Make sure that the required variables are specified"
  else if c.pgOldDatadir = c.pgNewDatadir ∨ c.pgOldConfdir = c.pgNewConfdir then
    some "Make sure that the old and new data and config directories do not match"
  else if looseVersion s.currentVersion ≠ looseVersion c.pgOldVersion then
    some "Pre-Check error. An incorrect version of PostgreSQL may have been specified"
  else if before (looseVersion s.currentVersion) (looseVersion c.pgNewVersion) ≠ some true then
    some "Pre-Check error. An incorrect target version of PostgreSQL may have been specified"
  else if c.pgNewDatadir = s.currentDatadir then
    some "Pre-Check error. The current data directory is the same as new data directory"
  else if c.pgNewWalDir ≠ [] ∧ c.pgNewWalDir = c.postgresqlWalDir then
    some "Pre-Check error. The current WAL directory is the same as new WAL directory"
  else none

/-- The WAL directory of the current cluster. -/
def walDirectory (c : Config) (s : Server) : Text :=
  if c.postgresqlWalDir = [] then s.currentDatadir ++ "/pg_wal".toList else c.postgresqlWalDir

/-! ## Removals -/

inductive OsFamily where
  | debian | redHat | other
  deriving DecidableEq

/-- What a host shows to the tasks: whether the new data directory is initialized, whether its
pg_wal is a directory and no symlink, what pg_dropcluster deletes for a version, and the data
directory of the running server after the upgrade. -/
structure Host where
  cwd : List Text
  osFamily : OsFamily
  newInitialized : Bool
  pgWalIsDirectory : Bool
  clusterDirectories : Text → List Text
  dataDirectoryAfter : Option Text

def initdbRemovals (c : Config) (h : Host) : List Text :=
  if h.newInitialized then
    (if h.osFamily = .debian ∧ c.pgNewConfdir ≠ c.pgNewDatadir then
      h.clusterDirectories c.pgNewVersion else []) ++ [c.pgNewDatadir]
  else []

def pgWalOld (c : Config) : Text := c.pgNewDatadir ++ "/pg_wal_old".toList

def customWalDirRemovals (c : Config) (h : Host) : List Text :=
  if c.pgNewWalDir ≠ [] ∧ h.pgWalIsDirectory = true then [c.pgNewWalDir, pgWalOld c] else []

/-- The server runs on the new data directory. -/
def Host.startedOnNew (c : Config) (h : Host) : Prop :=
  h.dataDirectoryAfter.map trim = some c.pgNewDatadir

instance (c : Config) (h : Host) : Decidable (h.startedOnNew c) :=
  inferInstanceAs (Decidable (_ = _))

def postUpgradeRemovals (c : Config) (h : Host) : List Text :=
  (if h.startedOnNew c then
    match h.osFamily with
    | .redHat => [c.pgOldDatadir]
    | .debian => h.clusterDirectories c.pgOldVersion
    | .other => []
  else []) ++
    if h.dataDirectoryAfter.isSome ∧ c.postgresqlWalDir ≠ [] ∧ c.pgNewWalDir ≠ [] then
      [c.oldWalDir]
    else []

/-- The removal takes neither the current data directory nor the current WAL directory away. -/
def SparesOld (c : Config) (s : Server) (h : Host) (path : Text) : Prop :=
  ¬ Covers h.cwd path s.currentDatadir ∧ ¬ Covers h.cwd path (walDirectory c s)

def SparesNew (c : Config) (h : Host) (path : Text) : Prop :=
  ¬ Covers h.cwd path c.pgNewDatadir ∧ ¬ Covers h.cwd path c.pgNewWalDir

instance (c : Config) (s : Server) (h : Host) (path : Text) : Decidable (SparesOld c s h path) :=
  inferInstanceAs (Decidable (_ ∧ _))

instance (c : Config) (h : Host) (path : Text) : Decidable (SparesNew c h path) :=
  inferInstanceAs (Decidable (_ ∧ _))

/-- No directory in use is removed on the host. -/
structure SafeRemovals (c : Config) (s : Server) (h : Host) : Prop where
  beforeStart : ∀ path ∈ initdbRemovals c h ++ customWalDirRemovals c h, SparesOld c s h path
  postUpgrade : ∀ path ∈ postUpgradeRemovals c h, SparesNew c h path

/-! ## Directories apart -/

/-- Two versions make two directories of a path: it names the version that it is written for. -/
def Config.Distinguish (c : Config) (path w w' : Text) : Prop :=
  w ≠ w' ∧ ∃ name ∈ directory [] path, c.postgresqlVersion <:+: name

instance (c : Config) (path w w' : Text) : Decidable (c.Distinguish path w w') :=
  inferInstanceAs (Decidable (_ ∧ _))

/-- The cluster runs on the data directory that is configured. -/
def RunsOnDataDir (c : Config) (s : Server) (h : Host) : Prop :=
  s.currentDatadir ≠ [] ∧ directory h.cwd s.currentDatadir = directory h.cwd c.postgresqlDataDir

instance (c : Config) (s : Server) (h : Host) : Decidable (RunsOnDataDir c s h) :=
  inferInstanceAs (Decidable (_ ∧ _))

/-- The versions are version texts and the paths are in one line. -/
structure Config.Regular (c : Config) : Prop where
  current : IsVersion c.postgresqlVersion
  old : IsVersion c.pgOldVersion
  new : IsVersion c.pgNewVersion
  dataDir : '\n' ∉ c.postgresqlDataDir
  walDir : '\n' ∉ c.postgresqlWalDir

/-- Paths that are derived from one path for two versions name the version; of the others none is
above one that it must spare. -/
structure Apart (c : Config) (s : Server) (h : Host) : Prop where
  newDatadir : h.newInitialized = true → c.pgNewDatadir ≠ [] →
    if c.newDatadir = none ∧ RunsOnDataDir c s h then
      c.Distinguish c.postgresqlDataDir c.pgNewVersion c.postgresqlVersion
    else ¬ Covers h.cwd c.pgNewDatadir s.currentDatadir
  newWalDir : h.pgWalIsDirectory = true → c.pgNewWalDir ≠ [] →
    if c.newWalDir = none then
      c.Distinguish c.postgresqlWalDir c.pgNewVersion c.postgresqlVersion
    else ¬ Covers h.cwd c.pgNewWalDir (walDirectory c s)
  oldDatadir : h.startedOnNew c → h.osFamily = .redHat →
    if c.oldDatadir = none ∧ c.newDatadir = none then
      c.Distinguish c.postgresqlDataDir c.pgOldVersion c.pgNewVersion
    else ¬ Covers h.cwd c.pgOldDatadir c.pgNewDatadir
  oldWalDir : h.dataDirectoryAfter.isSome → c.postgresqlWalDir ≠ [] → c.pgNewWalDir ≠ [] →
    if c.newWalDir = none then c.Distinguish c.postgresqlWalDir c.pgOldVersion c.pgNewVersion
    else ¬ Covers h.cwd c.oldWalDir c.pgNewWalDir
  newDataOffWal : h.newInitialized = true → ¬ Covers h.cwd c.pgNewDatadir (walDirectory c s)
  newWalOffData : h.pgWalIsDirectory = true → ¬ Covers h.cwd c.pgNewWalDir s.currentDatadir
  movedWal : h.pgWalIsDirectory = true → c.pgNewWalDir ≠ [] → SparesOld c s h (pgWalOld c)
  oldDataOffWal : h.startedOnNew c → h.osFamily = .redHat →
    ¬ Covers h.cwd c.pgOldDatadir c.pgNewWalDir
  oldWalOffData : h.dataDirectoryAfter.isSome → c.postgresqlWalDir ≠ [] → c.pgNewWalDir ≠ [] →
    ¬ Covers h.cwd c.oldWalDir c.pgNewDatadir
  newCluster : h.newInitialized = true → h.osFamily = .debian → c.pgNewConfdir ≠ c.pgNewDatadir →
    ∀ path ∈ h.clusterDirectories c.pgNewVersion, SparesOld c s h path
  oldCluster : h.startedOnNew c → h.osFamily = .debian →
    ∀ path ∈ h.clusterDirectories c.pgOldVersion, SparesNew c h path

variable {c : Config} {s : Server} {h : Host}

/-- The checks that pass have compared the data directories as texts. -/
theorem datadirs_differ (hc : preChecks c s = none) : c.pgOldDatadir ≠ c.pgNewDatadir := by
  rw [preChecks] at hc
  split at hc
  · cases hc
  · split at hc
    · cases hc
    · next hdirs => exact fun he => hdirs (Or.inl he)

theorem mem_initdbRemovals {path : Text} :
    path ∈ initdbRemovals c h ↔ h.newInitialized = true ∧
      (path = c.pgNewDatadir ∨ h.osFamily = .debian ∧ c.pgNewConfdir ≠ c.pgNewDatadir ∧
        path ∈ h.clusterDirectories c.pgNewVersion) := by
  rw [initdbRemovals]
  by_cases hi : h.newInitialized = true
  · by_cases hd : h.osFamily = .debian ∧ c.pgNewConfdir ≠ c.pgNewDatadir
    · simp [hi, hd, or_comm]
    · rw [if_pos hi, if_neg hd, List.nil_append, List.mem_singleton]
      refine ⟨fun he => ⟨hi, Or.inl he⟩, ?_⟩
      rintro ⟨-, he | ⟨hos, hconf, -⟩⟩
      · exact he
      · exact absurd ⟨hos, hconf⟩ hd
  · simp [hi]

theorem mem_customWalDirRemovals {path : Text} :
    path ∈ customWalDirRemovals c h ↔ c.pgNewWalDir ≠ [] ∧ h.pgWalIsDirectory = true ∧
      (path = c.pgNewWalDir ∨ path = pgWalOld c) := by
  rw [customWalDirRemovals]
  by_cases hw : c.pgNewWalDir ≠ [] ∧ h.pgWalIsDirectory = true
  · rw [if_pos hw]
    simp [hw]
  · rw [if_neg hw]
    refine iff_of_false List.not_mem_nil fun hm => hw ⟨hm.1, hm.2.1⟩

theorem mem_postUpgradeRemovals {path : Text} :
    path ∈ postUpgradeRemovals c h ↔
      (h.startedOnNew c ∧ (h.osFamily = .redHat ∧ path = c.pgOldDatadir ∨
        h.osFamily = .debian ∧ path ∈ h.clusterDirectories c.pgOldVersion)) ∨
      (h.dataDirectoryAfter.isSome ∧ c.postgresqlWalDir ≠ [] ∧ c.pgNewWalDir ≠ []) ∧
        path = c.oldWalDir := by
  rw [postUpgradeRemovals]
  rw [List.mem_append]
  refine or_congr ?_ ?_
  · by_cases hn : h.startedOnNew c
    · rw [if_pos hn]
      cases h.osFamily <;> simp [hn]
    · rw [if_neg hn]
      exact iff_of_false List.not_mem_nil fun hm => hn hm.1
  · by_cases hw : h.dataDirectoryAfter.isSome ∧ c.postgresqlWalDir ≠ [] ∧ c.pgNewWalDir ≠ []
    · rw [if_pos hw]
      simp [hw]
    · rw [if_neg hw]
      exact iff_of_false List.not_mem_nil fun hm => hw hm.1

/-! ## Paths derived for two versions -/

theorem stripSlash_ne_nil {path w : Text} (hr : c.Regular) (hne : c.derived path w ≠ []) :
    stripSlash path ≠ [] := by
  intro hnil
  refine hne ?_
  rw [Config.derived, hnil, replace_of_ne hr.current.ne_nil]
  rfl

/-- Removing what is derived for one version takes away what is derived for another one unless
the path distinguishes the two. -/
theorem covers_derived_iff (hr : c.Regular) {path w w' : Text} (hw : IsVersion w)
    (hw' : IsVersion w') (hline : '\n' ∉ path) (hne : c.derived path w ≠ []) (cwd : List Text) :
    Covers cwd (c.derived path w) (c.derived path w') ↔ ¬ c.Distinguish path w w' := by
  have hstrip := stripSlash_ne_nil hr hne
  have hne' : c.derived path w' ≠ [] := replace_ne_nil hr.current.ne_nil hw'.ne_nil hstrip
  rw [Covers, and_iff_right hne, and_iff_right hne', Config.derived, Config.derived,
    directory_replace_iff hr.current hw hw', directory_stripSlash hline hstrip, Config.Distinguish]

/-- The path itself is what is derived for the version that it is written for. -/
theorem covers_derived_path_iff (hr : c.Regular) {path w other : Text} (hw : IsVersion w)
    (hline : '\n' ∉ path) (hne : c.derived path w ≠ []) {cwd : List Text} (hother : other ≠ [])
    (hsame : directory cwd other = directory cwd path) :
    Covers cwd (c.derived path w) other ↔ ¬ c.Distinguish path w c.postgresqlVersion := by
  have hstrip := stripSlash_ne_nil hr hne
  have hown : c.derived path c.postgresqlVersion = stripSlash path :=
    replace_self hr.current.ne_nil _
  have hown_ne : c.derived path c.postgresqlVersion ≠ [] := by
    rw [hown]
    exact hstrip
  have hdirectory : directory cwd (c.derived path c.postgresqlVersion) = directory cwd other := by
    rw [hown, directory_stripSlash hline hstrip, hsame]
  rw [← covers_derived_iff hr hw hr.current hline hne cwd, Covers, Covers, hdirectory,
    and_iff_right hother, and_iff_right hown_ne]

theorem newDatadir_iff (hr : c.Regular) (hne : c.pgNewDatadir ≠ []) :
    ¬ Covers h.cwd c.pgNewDatadir s.currentDatadir ↔
      if c.newDatadir = none ∧ RunsOnDataDir c s h then
        c.Distinguish c.postgresqlDataDir c.pgNewVersion c.postgresqlVersion
      else ¬ Covers h.cwd c.pgNewDatadir s.currentDatadir := by
  split
  · next hif =>
    obtain ⟨hnone, hcurrent, hsame⟩ := hif
    have hderived : c.pgNewDatadir = c.derived c.postgresqlDataDir c.pgNewVersion := by
      rw [Config.pgNewDatadir, hnone]
      rfl
    rw [hderived] at hne ⊢
    rw [covers_derived_path_iff hr hr.new hr.dataDir hne hcurrent hsame, not_not]
  · exact Iff.rfl

theorem newWalDir_iff (hr : c.Regular) (hne : c.pgNewWalDir ≠ []) :
    ¬ Covers h.cwd c.pgNewWalDir (walDirectory c s) ↔
      if c.newWalDir = none then
        c.Distinguish c.postgresqlWalDir c.pgNewVersion c.postgresqlVersion
      else ¬ Covers h.cwd c.pgNewWalDir (walDirectory c s) := by
  split
  · next hnone =>
    have hderived : c.pgNewWalDir = c.derived c.postgresqlWalDir c.pgNewVersion := by
      rw [Config.pgNewWalDir, hnone]
      rfl
    rw [hderived] at hne ⊢
    have hwal : c.postgresqlWalDir ≠ [] := by
      intro hnil
      refine stripSlash_ne_nil hr hne ?_
      rw [hnil]
      rfl
    rw [walDirectory, if_neg hwal, covers_derived_path_iff hr hr.new hr.walDir hne hwal rfl,
      not_not]
  · exact Iff.rfl

theorem oldDatadir_iff (hr : c.Regular) (hdiffer : c.pgOldDatadir ≠ c.pgNewDatadir) :
    ¬ Covers h.cwd c.pgOldDatadir c.pgNewDatadir ↔
      if c.oldDatadir = none ∧ c.newDatadir = none then
        c.Distinguish c.postgresqlDataDir c.pgOldVersion c.pgNewVersion
      else ¬ Covers h.cwd c.pgOldDatadir c.pgNewDatadir := by
  split
  · next hif =>
    have hold : c.pgOldDatadir = c.derived c.postgresqlDataDir c.pgOldVersion := by
      rw [Config.pgOldDatadir, hif.1]
      rfl
    have hnew : c.pgNewDatadir = c.derived c.postgresqlDataDir c.pgNewVersion := by
      rw [Config.pgNewDatadir, hif.2]
      rfl
    rw [hold, hnew] at hdiffer ⊢
    have hne : c.derived c.postgresqlDataDir c.pgOldVersion ≠ [] := by
      intro hnil
      by_cases hstrip : stripSlash c.postgresqlDataDir = []
      · refine hdiffer ?_
        rw [Config.derived, Config.derived, hstrip, replace_of_ne hr.current.ne_nil,
          replace_of_ne hr.current.ne_nil]
        rfl
      · exact replace_ne_nil hr.current.ne_nil hr.old.ne_nil hstrip hnil
    rw [covers_derived_iff hr hr.old hr.new hr.dataDir hne, not_not]
  · exact Iff.rfl

theorem oldWalDir_iff (hr : c.Regular) (hne : c.pgNewWalDir ≠ []) :
    ¬ Covers h.cwd c.oldWalDir c.pgNewWalDir ↔
      if c.newWalDir = none then c.Distinguish c.postgresqlWalDir c.pgOldVersion c.pgNewVersion
      else ¬ Covers h.cwd c.oldWalDir c.pgNewWalDir := by
  split
  · next hnone =>
    have hderived : c.pgNewWalDir = c.derived c.postgresqlWalDir c.pgNewVersion := by
      rw [Config.pgNewWalDir, hnone]
      rfl
    rw [hderived] at hne ⊢
    have hold : c.derived c.postgresqlWalDir c.pgOldVersion ≠ [] :=
      replace_ne_nil hr.current.ne_nil hr.old.ne_nil (stripSlash_ne_nil hr hne)
    rw [Config.oldWalDir, covers_derived_iff hr hr.old hr.new hr.walDir hold, not_not]
  · exact Iff.rfl

/-! ## Removals of what is apart -/

theorem apart_of_safe (hr : c.Regular) (hc : preChecks c s = none) (hs : SafeRemovals c s h) :
    Apart c s h where
  newDatadir := by
    intro hi hne
    have hspares := hs.beforeStart c.pgNewDatadir
      (List.mem_append_left _ (mem_initdbRemovals.mpr ⟨hi, Or.inl rfl⟩))
    exact (newDatadir_iff hr hne).mp hspares.1
  newWalDir := by
    intro hw hne
    have hspares := hs.beforeStart c.pgNewWalDir
      (List.mem_append_right _ (mem_customWalDirRemovals.mpr ⟨hne, hw, Or.inl rfl⟩))
    exact (newWalDir_iff hr hne).mp hspares.2
  oldDatadir := by
    intro hn hos
    have hspares := hs.postUpgrade c.pgOldDatadir
      (mem_postUpgradeRemovals.mpr (Or.inl ⟨hn, Or.inl ⟨hos, rfl⟩⟩))
    exact (oldDatadir_iff hr (datadirs_differ hc)).mp hspares.1
  oldWalDir := by
    intro hafter hwal hne
    have hspares := hs.postUpgrade c.oldWalDir
      (mem_postUpgradeRemovals.mpr (Or.inr ⟨⟨hafter, hwal, hne⟩, rfl⟩))
    exact (oldWalDir_iff hr hne).mp hspares.2
  newDataOffWal := by
    intro hi
    exact (hs.beforeStart c.pgNewDatadir
      (List.mem_append_left _ (mem_initdbRemovals.mpr ⟨hi, Or.inl rfl⟩))).2
  newWalOffData := by
    intro hw hcovers
    exact (hs.beforeStart c.pgNewWalDir (List.mem_append_right _
      (mem_customWalDirRemovals.mpr ⟨hcovers.1, hw, Or.inl rfl⟩))).1 hcovers
  movedWal := by
    intro hw hne
    exact hs.beforeStart _
      (List.mem_append_right _ (mem_customWalDirRemovals.mpr ⟨hne, hw, Or.inr rfl⟩))
  oldDataOffWal := by
    intro hn hos
    exact (hs.postUpgrade c.pgOldDatadir
      (mem_postUpgradeRemovals.mpr (Or.inl ⟨hn, Or.inl ⟨hos, rfl⟩⟩))).2
  oldWalOffData := by
    intro hafter hwal hne
    exact (hs.postUpgrade c.oldWalDir
      (mem_postUpgradeRemovals.mpr (Or.inr ⟨⟨hafter, hwal, hne⟩, rfl⟩))).1
  newCluster := by
    intro hi hos hconf path hpath
    exact hs.beforeStart path
      (List.mem_append_left _ (mem_initdbRemovals.mpr ⟨hi, Or.inr ⟨hos, hconf, hpath⟩⟩))
  oldCluster := by
    intro hn hos path hpath
    exact hs.postUpgrade path
      (mem_postUpgradeRemovals.mpr (Or.inl ⟨hn, Or.inr ⟨hos, hpath⟩⟩))

theorem safe_of_apart (hr : c.Regular) (hc : preChecks c s = none) (ha : Apart c s h) :
    SafeRemovals c s h := by
  refine ⟨?_, ?_⟩
  · intro path hpath
    rcases List.mem_append.mp hpath with hpath | hpath
    · obtain ⟨hi, rfl | ⟨hos, hconf, hpath⟩⟩ := mem_initdbRemovals.mp hpath
      · refine ⟨fun hcovers => ?_, ha.newDataOffWal hi⟩
        exact (newDatadir_iff hr hcovers.1).mpr (ha.newDatadir hi hcovers.1) hcovers
      · exact ha.newCluster hi hos hconf path hpath
    · obtain ⟨hne, hw, rfl | rfl⟩ := mem_customWalDirRemovals.mp hpath
      · exact ⟨ha.newWalOffData hw, (newWalDir_iff hr hne).mpr (ha.newWalDir hw hne)⟩
      · exact ha.movedWal hw hne
  · intro path hpath
    rcases mem_postUpgradeRemovals.mp hpath with
      ⟨hn, ⟨hos, rfl⟩ | ⟨hos, hpath⟩⟩ | ⟨⟨hafter, hwal, hne⟩, rfl⟩
    · exact ⟨(oldDatadir_iff hr (datadirs_differ hc)).mpr (ha.oldDatadir hn hos),
        ha.oldDataOffWal hn hos⟩
    · exact ha.oldCluster hn hos path hpath
    · exact ⟨ha.oldWalOffData hafter hwal hne,
        (oldWalDir_iff hr hne).mpr (ha.oldWalDir hafter hwal hne)⟩

/-! ## Configurations without overrides -/

/-- No path is overridden, the cluster runs on its data directory, from which the WAL directory
parts, and pg_dropcluster deletes the data directory of a version and else nothing in use. -/
structure Plain (c : Config) (s : Server) (h : Host) : Prop where
  oldDatadir : c.oldDatadir = none
  newDatadir : c.newDatadir = none
  newWalDir : c.newWalDir = none
  runs : RunsOnDataDir c s h
  forked : c.postgresqlWalDir = [] ∨
    Forked h.cwd c.postgresqlVersion c.postgresqlDataDir c.postgresqlWalDir
  newCluster : ∀ path ∈ h.clusterDirectories c.pgNewVersion,
    path = c.pgNewDatadir ∨ SparesOld c s h path
  oldCluster : ∀ path ∈ h.clusterDirectories c.pgOldVersion,
    path = c.pgOldDatadir ∨ SparesNew c h path

/-- The data directory and the WAL directory name the version where the one of another version is
removed. -/
structure NamesVersions (c : Config) (h : Host) : Prop where
  newDatadir : h.newInitialized = true →
    c.Distinguish c.postgresqlDataDir c.pgNewVersion c.postgresqlVersion
  newWalDir : h.pgWalIsDirectory = true → c.pgNewWalDir ≠ [] →
    c.Distinguish c.postgresqlWalDir c.pgNewVersion c.postgresqlVersion
  oldDatadir : h.startedOnNew c → (h.osFamily = .redHat ∨
      h.osFamily = .debian ∧ c.pgOldDatadir ∈ h.clusterDirectories c.pgOldVersion) →
    c.Distinguish c.postgresqlDataDir c.pgOldVersion c.pgNewVersion
  oldWalDir : h.dataDirectoryAfter.isSome → c.postgresqlWalDir ≠ [] → c.pgNewWalDir ≠ [] →
    c.Distinguish c.postgresqlWalDir c.pgOldVersion c.pgNewVersion

namespace Plain

theorem pgNewDatadir_eq (hp : Plain c s h) :
    c.pgNewDatadir = c.derived c.postgresqlDataDir c.pgNewVersion := by
  rw [Config.pgNewDatadir, hp.newDatadir, Option.getD_none]

theorem pgOldDatadir_eq (hp : Plain c s h) :
    c.pgOldDatadir = c.derived c.postgresqlDataDir c.pgOldVersion := by
  rw [Config.pgOldDatadir, hp.oldDatadir, Option.getD_none]

theorem pgNewWalDir_eq (hp : Plain c s h) :
    c.pgNewWalDir = c.derived c.postgresqlWalDir c.pgNewVersion := by
  rw [Config.pgNewWalDir, hp.newWalDir, Option.getD_none]

theorem stripSlash_dataDir (hp : Plain c s h) (hr : c.Regular) (hc : preChecks c s = none) :
    stripSlash c.postgresqlDataDir ≠ [] := by
  intro hnil
  refine datadirs_differ hc ?_
  rw [hp.pgOldDatadir_eq, hp.pgNewDatadir_eq, Config.derived, Config.derived, hnil,
    replace_of_ne hr.current.ne_nil, replace_of_ne hr.current.ne_nil]
  rfl

theorem pgNewDatadir_ne_nil (hp : Plain c s h) (hr : c.Regular) (hc : preChecks c s = none) :
    c.pgNewDatadir ≠ [] := by
  rw [hp.pgNewDatadir_eq]
  exact replace_ne_nil hr.current.ne_nil hr.new.ne_nil (hp.stripSlash_dataDir hr hc)

theorem stripSlash_walDir (hp : Plain c s h) (hr : c.Regular) (hwal : c.postgresqlWalDir ≠ []) :
    stripSlash c.postgresqlWalDir ≠ [] := by
  intro hnil
  obtain ⟨i, a, b, -, hb, -⟩ := hp.forked.resolve_left hwal
  rw [directory_of_stripSlash_nil hr.walDir hwal hnil] at hb
  cases hb

theorem forked_stripSlash (hp : Plain c s h) (hr : c.Regular) (hc : preChecks c s = none)
    (hwal : c.postgresqlWalDir ≠ []) :
    Forked h.cwd c.postgresqlVersion (stripSlash c.postgresqlDataDir)
      (stripSlash c.postgresqlWalDir) := by
  have hforked := hp.forked.resolve_left hwal
  rw [Forked] at hforked ⊢
  rwa [directory_stripSlash hr.dataDir (hp.stripSlash_dataDir hr hc),
    directory_stripSlash hr.walDir (hp.stripSlash_walDir hr hwal)]

/-- Nothing that is made of the data directory is above what is made of the WAL directory. -/
theorem data_off_wal (hp : Plain c s h) (hr : c.Regular) (hc : preChecks c s = none)
    (hwal : c.postgresqlWalDir ≠ []) {w w' : Text} (hw : IsVersion w) (hw' : IsVersion w')
    (below : List Text) : ¬ directory h.cwd (c.derived c.postgresqlDataDir w) ++ below <+:
      directory h.cwd (c.derived c.postgresqlWalDir w') :=
  (hp.forked_stripSlash hr hc hwal).not_below hr.current hw hw' below

theorem wal_off_data (hp : Plain c s h) (hr : c.Regular) (hc : preChecks c s = none)
    (hwal : c.postgresqlWalDir ≠ []) {w w' : Text} (hw : IsVersion w) (hw' : IsVersion w') :
    ¬ directory h.cwd (c.derived c.postgresqlWalDir w) <+:
      directory h.cwd (c.derived c.postgresqlDataDir w') := by
  have hnot := (hp.forked_stripSlash hr hc hwal).symm.not_below hr.current hw hw' []
  rwa [List.append_nil] at hnot

theorem directory_current (hp : Plain c s h) (hr : c.Regular) (hc : preChecks c s = none) :
    directory h.cwd s.currentDatadir =
      directory h.cwd (c.derived c.postgresqlDataDir c.postgresqlVersion) := by
  rw [Config.derived, replace_self hr.current.ne_nil,
    directory_stripSlash hr.dataDir (hp.stripSlash_dataDir hr hc)]
  exact hp.runs.2

theorem directory_wal (hp : Plain c s h) (hr : c.Regular) (hwal : c.postgresqlWalDir ≠ []) :
    directory h.cwd c.postgresqlWalDir =
      directory h.cwd (c.derived c.postgresqlWalDir c.postgresqlVersion) := by
  rw [Config.derived, replace_self hr.current.ne_nil,
    directory_stripSlash hr.walDir (hp.stripSlash_walDir hr hwal)]

theorem length_derived (hp : Plain c s h) (hr : c.Regular) (hc : preChecks c s = none) {w : Text}
    (hw : IsVersion w) : (directory h.cwd (c.derived c.postgresqlDataDir w)).length =
      (directory h.cwd s.currentDatadir).length := by
  rw [hp.directory_current hr hc, Config.derived, Config.derived,
    length_directory_replace hr.current hw, length_directory_replace hr.current hr.current]

/-- The new data directory is above the WAL directory in use only if it is the current one. -/
theorem newDataOffWal (hp : Plain c s h) (hr : c.Regular) (hc : preChecks c s = none)
    (hnew : ¬ Covers h.cwd c.pgNewDatadir s.currentDatadir) :
    ¬ Covers h.cwd c.pgNewDatadir (walDirectory c s) := by
  rintro ⟨hne, hother, hcovers⟩
  rw [walDirectory] at hcovers
  split at hcovers
  · have hbelow : directory h.cwd (s.currentDatadir ++ "/pg_wal".toList) =
        directory h.cwd s.currentDatadir ++ ["pg_wal".toList] :=
      directory_below hp.runs.1 h.cwd (by decide) (by unfold IsDots; decide)
    rw [hbelow, List.prefix_concat_iff] at hcovers
    rcases hcovers with heq | habove
    · have hlength := congrArg List.length heq
      rw [hp.pgNewDatadir_eq, hp.length_derived hr hc hr.new, List.length_append] at hlength
      exact absurd hlength (by simp)
    · exact hnew ⟨hne, hp.runs.1, habove⟩
  · next hwal =>
    rw [hp.pgNewDatadir_eq, hp.directory_wal hr hwal] at hcovers
    refine hp.data_off_wal hr hc hwal hr.new hr.current [] ?_
    rwa [List.append_nil]

theorem wal_ne_nil (hp : Plain c s h) (hr : c.Regular) (hne : c.pgNewWalDir ≠ []) :
    c.postgresqlWalDir ≠ [] := by
  intro hnil
  rw [hp.pgNewWalDir_eq] at hne
  refine stripSlash_ne_nil hr hne ?_
  rw [hnil]
  rfl

theorem movedWal (hp : Plain c s h) (hr : c.Regular) (hc : preChecks c s = none)
    (hne : c.pgNewWalDir ≠ []) : SparesOld c s h (pgWalOld c) := by
  have hwal := hp.wal_ne_nil hr hne
  have hbelow : directory h.cwd (pgWalOld c) =
      directory h.cwd (c.derived c.postgresqlDataDir c.pgNewVersion) ++ ["pg_wal_old".toList] := by
    rw [pgWalOld, ← hp.pgNewDatadir_eq]
    exact directory_below (hp.pgNewDatadir_ne_nil hr hc) h.cwd (by decide)
      (by unfold IsDots; decide)
  constructor
  · rintro ⟨-, -, hcovers⟩
    have hlength := hcovers.length_le
    rw [hbelow, List.length_append, hp.length_derived hr hc hr.new] at hlength
    exact absurd hlength (by simp)
  · rintro ⟨-, -, hcovers⟩
    rw [walDirectory, if_neg hwal, hbelow, hp.directory_wal hr hwal] at hcovers
    exact hp.data_off_wal hr hc hwal hr.new hr.current _ hcovers

theorem oldDataOffWal (hp : Plain c s h) (hr : c.Regular) (hc : preChecks c s = none) :
    ¬ Covers h.cwd c.pgOldDatadir c.pgNewWalDir := by
  rintro ⟨-, hne, hcovers⟩
  rw [hp.pgOldDatadir_eq, hp.pgNewWalDir_eq] at hcovers
  refine hp.data_off_wal hr hc (hp.wal_ne_nil hr hne) hr.old hr.new [] ?_
  rwa [List.append_nil]

theorem newDatadir_spared_iff (hp : Plain c s h) (hr : c.Regular) (hc : preChecks c s = none) :
    ¬ Covers h.cwd c.pgNewDatadir s.currentDatadir ↔
      c.Distinguish c.postgresqlDataDir c.pgNewVersion c.postgresqlVersion := by
  rw [newDatadir_iff hr (hp.pgNewDatadir_ne_nil hr hc), if_pos ⟨hp.newDatadir, hp.runs⟩]

theorem oldDatadir_spared_iff (hp : Plain c s h) (hr : c.Regular) (hc : preChecks c s = none) :
    ¬ Covers h.cwd c.pgOldDatadir c.pgNewDatadir ↔
      c.Distinguish c.postgresqlDataDir c.pgOldVersion c.pgNewVersion := by
  rw [oldDatadir_iff hr (datadirs_differ hc), if_pos ⟨hp.oldDatadir, hp.newDatadir⟩]

theorem namesVersions (hp : Plain c s h) (hr : c.Regular) (hc : preChecks c s = none)
    (ha : Apart c s h) : NamesVersions c h where
  newDatadir := by
    intro hi
    have hnew := ha.newDatadir hi (hp.pgNewDatadir_ne_nil hr hc)
    rwa [if_pos ⟨hp.newDatadir, hp.runs⟩] at hnew
  newWalDir := by
    intro hw hne
    have hnew := ha.newWalDir hw hne
    rwa [if_pos hp.newWalDir] at hnew
  oldDatadir := by
    rintro hn (hos | ⟨hos, hpath⟩)
    · have hold := ha.oldDatadir hn hos
      rwa [if_pos ⟨hp.oldDatadir, hp.newDatadir⟩] at hold
    · exact (hp.oldDatadir_spared_iff hr hc).mp (ha.oldCluster hn hos _ hpath).1
  oldWalDir := by
    intro hafter hwal hne
    have hold := ha.oldWalDir hafter hwal hne
    rwa [if_pos hp.newWalDir] at hold

theorem apart (hp : Plain c s h) (hr : c.Regular) (hc : preChecks c s = none)
    (hv : NamesVersions c h) : Apart c s h where
  newDatadir := by
    intro hi hne
    rw [if_pos ⟨hp.newDatadir, hp.runs⟩]
    exact hv.newDatadir hi
  newWalDir := by
    intro hw hne
    rw [if_pos hp.newWalDir]
    exact hv.newWalDir hw hne
  oldDatadir := by
    intro hn hos
    rw [if_pos ⟨hp.oldDatadir, hp.newDatadir⟩]
    exact hv.oldDatadir hn (Or.inl hos)
  oldWalDir := by
    intro hafter hwal hne
    rw [if_pos hp.newWalDir]
    exact hv.oldWalDir hafter hwal hne
  newDataOffWal := by
    intro hi
    exact hp.newDataOffWal hr hc ((hp.newDatadir_spared_iff hr hc).mpr (hv.newDatadir hi))
  newWalOffData := by
    rintro hw ⟨hne, -, hcovers⟩
    rw [hp.pgNewWalDir_eq, hp.directory_current hr hc] at hcovers
    exact hp.wal_off_data hr hc (hp.wal_ne_nil hr hne) hr.new hr.current hcovers
  movedWal := by
    intro hw hne
    exact hp.movedWal hr hc hne
  oldDataOffWal := by
    intro hn hos
    exact hp.oldDataOffWal hr hc
  oldWalOffData := by
    rintro hafter hwal hne ⟨-, -, hcovers⟩
    rw [hp.pgNewDatadir_eq] at hcovers
    exact hp.wal_off_data hr hc hwal hr.old hr.new hcovers
  newCluster := by
    intro hi hos hconf path hpath
    rcases hp.newCluster path hpath with rfl | hspares
    · have hnew := (hp.newDatadir_spared_iff hr hc).mpr (hv.newDatadir hi)
      exact ⟨hnew, hp.newDataOffWal hr hc hnew⟩
    · exact hspares
  oldCluster := by
    intro hn hos path hpath
    rcases hp.oldCluster path hpath with rfl | hspares
    · exact ⟨(hp.oldDatadir_spared_iff hr hc).mpr (hv.oldDatadir hn (Or.inr ⟨hos, hpath⟩)),
        hp.oldDataOffWal hr hc⟩
    · exact hspares

end Plain

/-- The default paths on Debian, from 16 to 17, with a custom WAL directory. -/
def withWalDir (walDir : String) : Config where
  postgresqlVersion := "16".toList
  pgOldVersion := "16".toList
  pgNewVersion := "17".toList
  postgresqlDataDir := "/var/lib/postgresql/16/main".toList
  postgresqlConfDir := "/etc/postgresql/16/main".toList
  postgresqlWalDir := walDir.toList
  oldDatadir := none
  newDatadir := none
  oldConfdir := none
  newConfdir := none
  newWalDir := none

def runningSixteen : Server := ⟨"16".toList, "/var/lib/postgresql/16/main".toList⟩

def debianHost : Host where
  cwd := ["root".toList]
  osFamily := .debian
  newInitialized := true
  pgWalIsDirectory := true
  clusterDirectories := fun version => ["/var/lib/postgresql/".toList ++ version ++ "/main".toList]
  dataDirectoryAfter := some "/var/lib/postgresql/17/main".toList

theorem withWalDir_regular {walDir : String} (h : '\n' ∉ walDir.toList) :
    (withWalDir walDir).Regular := by
  have hsixteen : IsVersion "16".toList := ⟨by decide, '1', by decide, by decide⟩
  have hseventeen : IsVersion "17".toList := ⟨by decide, '1', by decide, by decide⟩
  have hdata : '\n' ∉ "/var/lib/postgresql/16/main".toList := by
    decide
  exact ⟨hsixteen, hsixteen, hseventeen, hdata, h⟩

theorem versioned_wal_dir_apart :
    Apart (withWalDir "/pgwal/16/") runningSixteen debianHost where
  newDatadir := by decide +kernel
  newWalDir := by decide +kernel
  oldDatadir := by decide +kernel
  oldWalDir := by decide +kernel
  newDataOffWal := by decide +kernel
  newWalOffData := by decide +kernel
  movedWal := by decide +kernel
  oldDataOffWal := by decide +kernel
  oldWalOffData := by decide +kernel
  newCluster := by decide +kernel
  oldCluster := by decide +kernel

theorem versioned_wal_dir_plain :
    Plain (withWalDir "/pgwal/16/") runningSixteen debianHost where
  oldDatadir := rfl
  newDatadir := rfl
  newWalDir := rfl
  runs := by decide +kernel
  forked := by
    refine Or.inr ⟨0, "var".toList, "pgwal".toList, ?_⟩
    decide +kernel
  newCluster := by decide +kernel
  oldCluster := by decide +kernel

end UpgradeDirectories
