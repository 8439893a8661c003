import Autobase.PatroniConfigBackup
import Mathlib.Logic.Function.Iterate

/-! # The paths in patroni.yml

The update of the configuration replaces the old directories by the new ones, as often as an
upgrade is tried, and the rollback replaces the new ones by the old ones. A pattern does not end
where the path of its line ends, so a new path that begins like the old one is found again. -/
namespace PatroniPaths

open LineEdits PatroniConfigBackup

/-! ## The edits -/

/-- update_config.yml, Update the directory path to a new version. -/
def updatePaths (v : Vars) (y : Yml) : Yml :=
  [Directory.data, .bin, .config].foldl
    (fun y d => v.replacePath d (v.pgOld d) (v.pgNew d) y) y

/-- The file has a line for each of the old directories. -/
def NamesOld (v : Vars) (y : Yml) : Prop :=
  ∀ d, ∃ i n : ℕ, y.all[i]? = some (directoryLine n d (v.pgOld d))

/-- After `k` updates every line of an old directory has the new one, and the rollback turns it
back. -/
def PathsExact (v : Vars) (y : Yml) (k : ℕ) : Prop :=
  ∀ (i n : ℕ) (d : Directory), y.all[i]? = some (directoryLine n d (v.pgOld d)) →
    ((updatePaths v)^[k] y).all[i]? = some (directoryLine n d (v.pgNew d)) ∧
      (v.restorePaths ((updatePaths v)^[k] y)).all[i]? = some (directoryLine n d (v.pgOld d))

/-- A path that begins like the old one is as long as the old one. -/
def Stable (old new : Path) : Prop :=
  fits (regexp old) new = true → new.length = old.length

instance (old new : Path) : Decidable (Stable old new) :=
  inferInstanceAs (Decidable (_ → _))

/-! ## One replacement of a path -/

variable {v : Vars} {y : Yml} {old new p : Path} {d d' : Directory}

theorem isScalar_rewritten (hnew : isScalar new = true) (hp : isScalar p = true) :
    isScalar (rewritten old new p) = true := by
  rw [rewritten]
  split
  · exact isScalar_append hnew (isScalar_drop hp _)
  · exact hp

/-! ## One update -/

/-- The replacements of all directories in one line. -/
def replaceAll (old new : Directory → Path) (line : Line) : Line :=
  [Directory.data, .bin, .config].foldl
    (fun line d => replaceDirectory d (old d) (new d) line) line

theorem updatePaths_eq (hs : v.PathsSimple) (y : Yml) :
    updatePaths v y = y.map (replaceAll v.pgOld v.pgNew) := by
  simp only [updatePaths, List.foldl_cons, List.foldl_nil, replacePath_eq (hs _).1 (hs _).2,
    File.map_map]
  rfl

theorem restorePaths_eq (hs : v.PathsSimple) (y : Yml) :
    v.restorePaths y = y.map (replaceAll v.pgNew v.pgOld) := by
  simp only [Vars.restorePaths, List.foldl_cons, List.foldl_nil, replacePath_eq (hs _).2 (hs _).1,
    File.map_map]
  rfl

theorem getElem?_all_map (edit : Line → Line) (y : Yml) (i : ℕ) :
    (y.map edit).all[i]? = (y.all[i]?).map edit := by
  have hall : (y.map edit).all = y.all.map edit := by simp [File.all, File.map]
  rw [hall, List.getElem?_map]

theorem getElem?_iterate (hs : v.PathsSimple) (k i : ℕ) :
    ((updatePaths v)^[k] y).all[i]? = (y.all[i]?).map (replaceAll v.pgOld v.pgNew)^[k] := by
  induction k with
  | zero => rw [Function.iterate_zero, Function.iterate_zero, Option.map_id, id, id]
  | succ k ih =>
    rw [Function.iterate_succ_apply', updatePaths_eq hs, getElem?_all_map, ih, Option.map_map,
      Function.iterate_succ']

theorem replaceAll_directoryLine (old new : Directory → Path) (n : ℕ) (d : Directory)
    (hp : isScalar p = true) (hnew : isScalar (new d) = true) :
    replaceAll old new (directoryLine n d p) =
      directoryLine n d (rewritten (old d) (new d) p) := by
  have hother : ∀ {q : Path}, isScalar q = true → ∀ d', d' ≠ d →
      replaceDirectory d' (old d') (new d') (directoryLine n d q) = directoryLine n d q :=
    fun hq d' hd => replaceDirectory_other hq fun heq => absurd heq hd
  have hown := replaceDirectory_rewritten n d (old d) (new d) hp
  have hrewritten : isScalar (rewritten (old d) (new d) p) = true := isScalar_rewritten hnew hp
  simp only [replaceAll, List.foldl_cons, List.foldl_nil]
  cases d with
  | data => rw [hown, hother hrewritten .bin (by decide), hother hrewritten .config (by decide)]
  | bin => rw [hother hp .data (by decide), hown, hother hrewritten .config (by decide)]
  | config => rw [hother hp .data (by decide), hother hp .bin (by decide), hown]

/-! ## Any number of updates -/

theorem directoryLine_inj {n : ℕ} (h : directoryLine n d p = directoryLine n d old) : p = old :=
  List.append_cancel_left (List.append_cancel_left h)

theorem rewritten_self (old new : Path) : rewritten old new old = new := by
  rw [rewritten, if_pos (fits_regexp_self old), List.drop_length, List.append_nil]

theorem rewritten_stable (h : Stable old new) : rewritten old new new = new := by
  by_cases hfits : fits (regexp old) new = true
  · rw [rewritten, if_pos hfits, List.drop_eq_nil_of_le (Nat.le_of_eq (h hfits)),
      List.append_nil]
  · exact if_neg hfits

/-- A new path that begins like the old one and goes on grows with every further update. -/
theorem growing (hfits : fits (regexp old) new = true) (hlong : old.length < new.length) (k : ℕ) :
    ∃ more, (rewritten old new)^[k + 1] old = new ++ more ∧ k ≤ more.length := by
  induction k with
  | zero => exact ⟨[], by rw [Function.iterate_one, rewritten_self, List.append_nil], Nat.zero_le _⟩
  | succ k ih =>
    obtain ⟨more, hmore, hk⟩ := ih
    refine ⟨(new ++ more).drop old.length, ?_, ?_⟩
    · rw [Function.iterate_succ_apply', hmore, rewritten, if_pos (fits_append hfits more)]
    · rw [List.length_drop, List.length_append]
      omega

theorem iterate_rewritten_iff (k : ℕ) :
    (rewritten old new)^[k + 1] old = new ↔ k = 0 ∨ Stable old new := by
  constructor
  · intro h
    by_contra hnot
    obtain ⟨hk, hstable⟩ := not_or.mp hnot
    obtain ⟨hfits, hlength⟩ := Classical.not_imp.mp hstable
    have hlong : old.length < new.length :=
      Nat.lt_of_le_of_ne (length_le_of_fits hfits) (Ne.symm hlength)
    obtain ⟨more, hmore, hle⟩ := growing hfits hlong k
    have hlen := congrArg List.length hmore
    rw [h, List.length_append] at hlen
    omega
  · rintro (rfl | h)
    · exact rewritten_self old new
    · rw [Function.iterate_succ_apply, rewritten_self,
        Function.iterate_fixed (rewritten_stable h)]

theorem iterate_replaceAll (hs : v.PathsSimple) (n k : ℕ) (d : Directory)
    (hp : isScalar p = true) :
    (replaceAll v.pgOld v.pgNew)^[k] (directoryLine n d p) =
        directoryLine n d ((rewritten (v.pgOld d) (v.pgNew d))^[k] p) ∧
      isScalar ((rewritten (v.pgOld d) (v.pgNew d))^[k] p) = true := by
  have hnew := (hs d).2.scalar
  induction k with
  | zero => exact ⟨rfl, hp⟩
  | succ k ih =>
    obtain ⟨hline, hscalar⟩ := ih
    rw [Function.iterate_succ_apply', hline, Function.iterate_succ_apply',
      replaceAll_directoryLine v.pgOld v.pgNew n d hscalar hnew]
    exact ⟨rfl, isScalar_rewritten hnew hscalar⟩

/-- The paths are exact after the first update, and after every further one exactly when no new
path goes on where the old one ends. -/
theorem paths_exact_iff (v : Vars) (hs : v.PathsSimple) (y : Yml) (hnames : NamesOld v y) (k : ℕ) :
    PathsExact v y (k + 1) ↔ k = 0 ∨ ∀ d, Stable (v.pgOld d) (v.pgNew d) := by
  have hline : ∀ (i n : ℕ) (d : Directory), y.all[i]? = some (directoryLine n d (v.pgOld d)) →
      ((updatePaths v)^[k + 1] y).all[i]? = some (directoryLine n d
        ((rewritten (v.pgOld d) (v.pgNew d))^[k + 1] (v.pgOld d))) := by
    intro i n d hi
    rw [getElem?_iterate hs, hi, Option.map_some,
      (iterate_replaceAll hs n (k + 1) d (hs d).1.scalar).1]
  constructor
  · intro h
    by_cases hk : k = 0
    · exact Or.inl hk
    · refine Or.inr fun d => ?_
      obtain ⟨i, n, hi⟩ := hnames d
      have hnew := (hline i n d hi).symm.trans (h i n d hi).1
      exact ((iterate_rewritten_iff k).mp
        (directoryLine_inj (Option.some.inj hnew))).resolve_left hk
  · intro h i n d hi
    have hnew : (rewritten (v.pgOld d) (v.pgNew d))^[k + 1] (v.pgOld d) = v.pgNew d :=
      (iterate_rewritten_iff k).mpr (h.imp_right fun hstable => hstable d)
    have hupdated := hnew ▸ hline i n d hi
    refine ⟨hupdated, ?_⟩
    rw [restorePaths_eq hs, getElem?_all_map, hupdated, Option.map_some,
      replaceAll_directoryLine v.pgNew v.pgOld n d (hs d).2.scalar (hs d).1.scalar,
      rewritten_self]

/-- A file for a data directory. -/
def sampleFile (data : String) : Yml where
  lines :=
    [("  data_dir: " ++ data).toList,
      "  bin_dir: /usr/lib/postgresql/17/bin".toList,
      "  config_dir: /etc/postgresql/17/main".toList]
  rest := []

/-- From 17 to 18; a pattern with a plus finds nothing in these files. -/
def sampleVars (oldData newData : String) : Vars where
  pgOldVersion := 17
  pgNewVersion := 18
  pgOld := Directory.choose oldData.toList "/usr/lib/postgresql/17/bin".toList
    "/etc/postgresql/17/main".toList
  pgNew := Directory.choose newData.toList "/usr/lib/postgresql/18/bin".toList
    "/etc/postgresql/18/main".toList
  int := fun _ => 0
  sub := fun _ _ y => y

theorem sampleFile_namesOld {oldData newData : String}
    (hlines : (sampleFile oldData).all.take 3 = [Directory.data, .bin, .config].map fun d =>
      directoryLine 2 d ((sampleVars oldData newData).pgOld d)) :
    NamesOld (sampleVars oldData newData) (sampleFile oldData) := by
  have hplace : ∀ i < 3, (sampleFile oldData).all[i]? = ([Directory.data, .bin, .config].map
      fun d => directoryLine 2 d ((sampleVars oldData newData).pgOld d))[i]? := by
    intro i hi
    rw [← hlines, List.getElem?_take_of_lt hi]
  intro d
  cases d with
  | data => exact ⟨0, 2, hplace 0 (by decide)⟩
  | bin => exact ⟨1, 2, hplace 1 (by decide)⟩
  | config => exact ⟨2, 2, hplace 2 (by decide)⟩

/-- Three updates to a data directory that contains the version. -/
theorem paths_exact_versioned :
    PathsExact (sampleVars "/pgdata/main" "/pgdata/18/main") (sampleFile "/pgdata/main") 3 :=
  (paths_exact_iff _ (fun d => by cases d <;> decide +kernel) _
    (sampleFile_namesOld (by decide +kernel)) 2).mpr (Or.inr fun d => by
      cases d <;> decide +kernel)

/-- The second update appends the version again. -/
theorem version_appended_twice : ¬ PathsExact (sampleVars "/pgdata/main" "/pgdata/main18")
    (sampleFile "/pgdata/main") 2 := by
  intro h
  have hline := (h 0 2 .data (by decide +kernel)).1
  revert hline
  decide +kernel

/-- The first update does not find a path that has a plus in it. -/
theorem plus_not_found : ¬ PathsExact (sampleVars "/pg+data/16/main" "/pg+data/17/main")
    (sampleFile "/pg+data/16/main") 1 := by
  intro h
  have hline := (h 0 2 .data (by decide +kernel)).1
  revert hline
  decide +kernel

/-- Not every path stays what it should be, whether it is replaced twice or as a pattern stands
for something else. -/
theorem not_every_path_exact :
    (¬ ∀ (v : Vars) (y : Yml), v.PathsSimple → NamesOld v y → (∀ d, v.pgOld d ≠ v.pgNew d) →
      ∀ k, PathsExact v y (k + 1)) ∧
      ¬ ∀ (v : Vars) (y : Yml), NamesOld v y → (∀ d, v.pgOld d ≠ v.pgNew d) →
        PathsExact v y 1 := by
  constructor
  · intro h
    refine version_appended_twice (h _ _ (fun d => by cases d <;> decide +kernel)
      (sampleFile_namesOld (by decide +kernel)) (fun d => by cases d <;> decide +kernel) 1)
  · intro h
    exact plus_not_found (h _ _ (sampleFile_namesOld (by decide +kernel))
      (fun d => by cases d <;> decide +kernel))

end PatroniPaths
