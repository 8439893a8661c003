import Autobase.LineEdits
import Autobase.TransitionRuns
import Mathlib.Data.Char

/-! # The backup of patroni.yml

The tasks of update_config.yml that touch patroni.yml, and the restore of rollback.yml. Every
attempt backs up the file as it finds it, so the backup of a second attempt holds what the
first one left. The rollback turns the directories back; nothing turns a removal back. -/
namespace PatroniConfigBackup

open LineEdits TransitionRuns

abbrev Line := List Char

abbrev Yml := File Char

abbrev Path := Line

/-- The characters that have a meaning in a regular expression, apart from the dot. -/
def special : List Char := ['^', '$', '*', '+', '?', '\x7b', '[', '\\', '|', '(', ')']

/-- In a plain scalar of YAML no colon stands before a blank or at the end. -/
def isScalar : Line → Bool
  | [] => true
  | c :: cs => (decide (c ≠ ':') || !(cs.isEmpty || cs.head? = some ' ')) && isScalar cs

/-- A path that stands in the file without quotes, and for itself in a pattern but for its dots. -/
structure Simple (p : Path) : Prop where
  literal : p.any special.contains = false
  scalar : isScalar p = true

instance (p : Path) : Decidable (Simple p) :=
  decidable_of_iff (p.any special.contains = false ∧ isScalar p = true)
    ⟨fun h => ⟨h.1, h.2⟩, fun h => ⟨h.literal, h.scalar⟩⟩

inductive Directory where
  | data | bin | config
  deriving DecidableEq

def Directory.name : Directory → Line
  | .data => "data_dir".toList
  | .bin => "bin_dir".toList
  | .config => "config_dir".toList

def Directory.key (d : Directory) : Line := d.name ++ ": ".toList

def Directory.choose {α : Type} (data bin config : α) : Directory → α
  | .data => data
  | .bin => bin
  | .config => config

/-- The variables of the play: the versions, the paths (pg_old_datadir, pg_old_bindir,
pg_old_confdir, and the same with pg_new), the int filter of the templates, and what re.sub makes
of a file with a pattern that has one of the special characters. -/
structure Vars where
  pgOldVersion : ℕ
  pgNewVersion : ℕ
  pgOld : Directory → Path
  pgNew : Directory → Path
  int : Line → ℤ
  sub : Line → Line → Yml → Yml

/-- All six paths are simple ones. -/
def Vars.PathsSimple (v : Vars) : Prop := ∀ d, Simple (v.pgOld d) ∧ Simple (v.pgNew d)

/-! ## The edits -/

def regexp (pattern : Line) : List (Char → Bool) :=
  pattern.map fun p => if p = '.' then fun _ => true else fun c => c = p

def grep (name : String) (y : Yml) : List Line :=
  y.all.filter (found (ofClasses (regexp name.toList)))

def directoryRegexp (d : Directory) (p : Path) : Matcher Char :=
  ofClasses (regexp (d.key ++ p))

def replaceDirectory (d : Directory) (old new : Path) : Line → Line :=
  replace (directoryRegexp d old) (d.key ++ new)

/-- In the new text only a backslash has a meaning. -/
def Vars.replacePath (v : Vars) (d : Directory) (old new : Path) (y : Yml) : Yml :=
  if old.any special.contains || new.contains '\\' then v.sub (d.key ++ old) (d.key ++ new) y
  else y.map (replaceDirectory d old new)

/-- The blanks of a regular expression on bytes. -/
def isBlankByte (c : Char) : Bool :=
  c = ' ' || c = '\t' || c = '\n' || c = '\r' || c.toNat = 11 || c.toNat = 12

/-- The blanks of a regular expression on text. -/
def isSpace (c : Char) : Bool :=
  isBlankByte c || (28 ≤ c.toNat && c.toNat ≤ 31) || c.toNat = 0x85 || c.toNat = 0xa0 ||
    c.toNat = 0x1680 || (0x2000 ≤ c.toNat && c.toNat ≤ 0x200a) || c.toNat = 0x2028 ||
    c.toNat = 0x2029 || c.toNat = 0x202f || c.toNat = 0x205f || c.toNat = 0x3000

/-- `^(\s*)name:.*` -/
def isParameter (name : String) (line : Line) : Bool :=
  (name.toList ++ [':']).isPrefixOf (line.dropWhile isBlankByte)

/-- `wal_keep_segments: ([0-9]+)` -/
def walKeepSegmentsRegexp : Matcher Char := fun text =>
  let key := "wal_keep_segments: ".toList
  let digits := (text.drop key.length).takeWhile Char.isDigit
  if key.isPrefixOf text && !digits.isEmpty then some (key.length + digits.length) else none

/-- `awk '\x7bprint $2\x7d'` -/
def secondField (line : Line) : Line :=
  (((line.splitOnP fun c => c = ' ' || c = '\t' || c = '\n').filter fun field =>
    !field.isEmpty)[1]?).getD []

def walKeepSegmentsOutput (y : Yml) : Line :=
  (((grep "wal_keep_segments" y).map secondField).getLast?).getD []

def behind (mark : Line) : Line → Option Line
  | [] => none
  | c :: cs =>
    if mark.isPrefixOf (c :: cs) then some ((c :: cs).drop mark.length) else behind mark cs

/-- `^\s*standby_cluster:[^\n]*\n(.|\n)*?initdb:` -/
def standbyCluster : LineEdits.Section Char where
  blank := fun line => line.all isSpace
  first := fun line => "standby_cluster:".toList.isPrefixOf (line.dropWhile isSpace)
  mark := behind "initdb:".toList

/-! ## The tasks -/

inductive Task where
  | backup
  | replaceDirectory (d : Directory)
  | removeParameter (name : String) (removedIn : ℕ)
  | replaceWalKeepSegments
  | removeStandbyCluster

def updateConfig : List Task :=
  [.backup,
    .replaceDirectory .data,
    .replaceDirectory .bin,
    .replaceDirectory .config,
    .removeParameter "replacement_sort_tuples" 11,
    .removeParameter "default_with_oids" 12,
    .replaceWalKeepSegments,
    .removeParameter "operator_precedence_warning" 14,
    .removeParameter "vacuum_cleanup_index_scale_factor" 14,
    .removeParameter "stats_temp_directory" 15,
    .removeParameter "force_parallel_mode" 16,
    .removeParameter "promote_trigger_file" 16,
    .removeParameter "vacuum_defer_cleanup_age" 16,
    .removeParameter "db_user_namespace" 17,
    .removeParameter "old_snapshot_threshold" 17,
    .removeParameter "trace_recovery_messages" 17,
    .removeParameter "ssl_ecdh_curve" 18,
    .removeStandbyCluster]

/-- The upgrade leads from a version before `removedIn` to one that is not. -/
def Vars.crosses (v : Vars) (removedIn : ℕ) : Bool :=
  v.pgOldVersion ≤ removedIn - 1 && removedIn ≤ v.pgNewVersion

def Vars.edit (v : Vars) : Task → Yml → Yml
  | .backup, y => y
  | .replaceDirectory d, y => v.replacePath d (v.pgOld d) (v.pgNew d) y
  | .removeParameter name removedIn, y =>
    if v.crosses removedIn && !(grep name y).isEmpty then y.delete (isParameter name) else y
  | .replaceWalKeepSegments, y =>
    let output := v.int (walKeepSegmentsOutput y)
    if v.crosses 13 && decide (0 < output) then
      y.map (replace walKeepSegmentsRegexp
        ("wal_keep_size: ".toList ++ (toString (output * 16) ++ "MB").toList))
    else y
  | .removeStandbyCluster, y => standbyCluster.cut "  initdb:".toList y

structure Files where
  yml : Yml
  bkp : Option Yml
  deriving DecidableEq

def Vars.step (v : Vars) (s : Files) : Task → Files
  | .backup => { s with bkp := some s.yml }
  | t => { s with yml := v.edit t s.yml }

/-- Attempts that failed, each after the backup and `k` further tasks. -/
def attempts (ks : List ℕ) : List Task := ks.flatMap fun k => updateConfig.take (k + 1)

/-- Ensure old PostgreSQL paths are set. -/
def Vars.restorePaths (v : Vars) (y : Yml) : Yml :=
  [Directory.data, .bin, .config].foldl
    (fun y d => v.replacePath d (v.pgNew d) (v.pgOld d) y) y

def Vars.rollback (v : Vars) (s : Files) : Files :=
  match s.bkp with
  | none => s
  | some bkp => { s with yml := v.restorePaths bkp }

/-! ## What the tasks find -/

/-- The task deletes something from the file. -/
def Vars.removes (v : Vars) : Task → Yml → Bool
  | .removeParameter name removedIn, y => v.crosses removedIn && y.all.any (isParameter name)
  | .removeStandbyCluster, y => standbyCluster.occurs y.lines y.rest
  | _, _ => false

/-- The task finds wal_keep_segments to replace. -/
def Vars.renames (v : Vars) : Task → Yml → Bool
  | .replaceWalKeepSegments, y =>
    v.crosses 13 && decide (0 < v.int (walKeepSegmentsOutput y)) &&
      y.all.any (found walKeepSegmentsRegexp)
  | _, _ => false

/-- No replacement of a directory, forth or back, finds something in the line. -/
def Vars.Foreign (v : Vars) (line : Line) : Prop :=
  ∀ d, found (directoryRegexp d (v.pgOld d)) line = false ∧
    found (directoryRegexp d (v.pgNew d)) line = false

def directoryLine (indent : ℕ) (d : Directory) (p : Path) : Line :=
  List.replicate indent ' ' ++ (d.key ++ p)

/-- With the same text behind them neither path of a directory begins like the other one. -/
structure Vars.Apart (v : Vars) (d : Directory) (rest : Line) : Prop where
  forth : fits (regexp (v.pgOld d)) (v.pgNew d ++ rest) = false
  back : fits (regexp (v.pgNew d)) (v.pgOld d ++ rest) = false

/-- No line names a new path: each is foreign, or sets a directory to the old path or one that
goes on from there. -/
def Vars.NamesOld (v : Vars) (y : Yml) : Prop :=
  ∀ line ∈ y.all, v.Foreign line ∨ ∃ indent d rest,
    isScalar rest = true ∧ v.Apart d rest ∧ line = directoryLine indent d (v.pgOld d ++ rest)

/-! ## What an edit does to the number of lines -/

variable {v : Vars} {y : Yml}

theorem fits_regexp_self (p : Line) : fits (regexp p) p = true := by
  induction p with
  | nil => rfl
  | cons c p ih =>
    refine Bool.and_eq_true_iff.mpr ⟨?_, ih⟩
    by_cases hc : c = '.'
    · simp [hc]
    · simp [hc]

theorem isParameter_nil (name : String) : isParameter name [] = false := by
  rw [isParameter, List.dropWhile_nil]
  cases name.toList <;> rfl

/-- A line of the parameter is among those grep finds. -/
theorem grep_ne_nil {name : String} {line : Line} (hmem : line ∈ y.all)
    (h : isParameter name line = true) : (grep name y).isEmpty = false := by
  obtain ⟨c, hc⟩ := List.isPrefixOf_iff_prefix.mp h
  refine List.isEmpty_eq_false_iff.mpr (List.ne_nil_of_mem (List.mem_filter.mpr ⟨hmem, ?_⟩))
  rw [← List.takeWhile_append_dropWhile (p := isBlankByte) (l := line), ← hc]
  refine found_of (by simp) ?_
  rw [ofClasses, List.append_assoc, if_pos (fits_append (fits_regexp_self name.toList) _)]
  rfl

theorem replacePath_eq {old new : Path} (hold : Simple old) (hnew : Simple new) (d : Directory)
    (y : Yml) : v.replacePath d old new y = y.map (replaceDirectory d old new) := by
  have hbackslash : new.contains '\\' = false := by
    refine Bool.eq_false_iff.mpr fun hmem => ?_
    exact List.any_eq_false.mp hnew.literal '\\' (List.contains_iff_mem.mp hmem) (by decide)
  rw [Vars.replacePath, hold.literal, hbackslash]
  rfl

theorem size_replacePath {old new : Path} (hold : Simple old) (hnew : Simple new) (d : Directory)
    (y : Yml) : (v.replacePath d old new y).size = y.size := by
  rw [replacePath_eq hold hnew]
  refine File.size_map y rfl fun line => replace_ne_nil ?_
  cases d <;> exact List.cons_ne_nil _ _

theorem size_edit_le (hs : v.PathsSimple) (t : Task) : (v.edit t y).size ≤ y.size := by
  cases t with
  | backup => exact Nat.le_refl _
  | replaceDirectory d => exact Nat.le_of_eq (size_replacePath (hs d).1 (hs d).2 d y)
  | removeParameter name removedIn =>
    rw [Vars.edit]
    split
    · exact File.size_delete_le
    · exact Nat.le_refl _
  | replaceWalKeepSegments =>
    simp only [Vars.edit]
    split
    · exact Nat.le_of_eq (File.size_map y rfl fun line => replace_ne_nil (List.cons_ne_nil _ _))
    · exact Nat.le_refl _
  | removeStandbyCluster => exact Section.size_cut_le rfl y

theorem size_edit_lt {t : Task} (h : v.removes t y = true) : (v.edit t y).size < y.size := by
  cases t with
  | removeParameter name removedIn =>
    obtain ⟨hcrosses, hany⟩ := Bool.and_eq_true_iff.mp h
    obtain ⟨line, hmem, hline⟩ := List.any_eq_true.mp hany
    rw [Vars.edit, hcrosses, grep_ne_nil hmem hline]
    exact File.size_delete_lt (isParameter_nil name) hmem hline
  | removeStandbyCluster => exact Section.size_cut_lt rfl h
  | backup | replaceDirectory d | replaceWalKeepSegments => cases h

/-- Apart from the directories a task changes the file only where it removes or renames. -/
theorem edit_eq_self {t : Task} (hremoves : v.removes t y = false)
    (hrenames : v.renames t y = false) (hdirectory : ∀ d, t ≠ .replaceDirectory d) :
    v.edit t y = y := by
  cases t with
  | backup => rfl
  | replaceDirectory d => exact absurd rfl (hdirectory d)
  | removeParameter name removedIn =>
    rw [Vars.edit]
    rcases Bool.and_eq_false_iff.mp hremoves with hcrosses | hany
    · rw [hcrosses]
      rfl
    · rw [File.delete_eq_self fun line hline => by simpa using List.any_eq_false.mp hany line hline]
      exact ite_self _
  | replaceWalKeepSegments =>
    simp only [Vars.edit]
    rcases Bool.and_eq_false_iff.mp hrenames with hcrosses | hany
    · rw [hcrosses]
      rfl
    · rw [File.map_eq_self fun line hline =>
        replace_eq_self (by simpa using List.any_eq_false.mp hany line hline)]
      exact ite_self _
  | removeStandbyCluster => exact Section.cut_eq_self hremoves

/-! ## Lines that set a directory -/

theorem eq_of_fits {p a : Line} (hdot : '.' ∉ p) (hlength : a.length = p.length)
    (h : fits (regexp p) a = true) : a = p := by
  induction p generalizing a with
  | nil => exact List.length_eq_zero_iff.mp hlength
  | cons c p ih =>
    obtain ⟨hc, hp⟩ := not_or.mp (mt List.mem_cons.mpr hdot)
    cases a with
    | nil => cases hlength
    | cons c' a =>
      obtain ⟨hhead, htail⟩ := Bool.and_eq_true_iff.mp h
      simp only [if_neg (Ne.symm hc)] at hhead
      exact congrArg₂ List.cons (of_decide_eq_true hhead) (ih hp (Nat.succ.inj hlength) htail)

theorem Directory.name_inj {d d' : Directory} {a b : Line} (h : a ++ d.name = b ++ d'.name) :
    d = d' := by
  have hend : ∀ (c : Line) (e : Directory),
      (c ++ e.name).reverse.take 5 = e.name.reverse.take 5 := by
    intro c e
    rw [List.reverse_append]
    exact List.take_append_of_le_length (by cases e <;> decide)
  have hends := (hend a d).symm.trans ((congrArg (fun l => l.reverse.take 5) h).trans (hend b d'))
  revert hends
  cases d <;> cases d' <;> decide

theorem isScalar_cons {c : Char} {cs : Line} :
    isScalar (c :: cs) = true ↔
      (c = ':' → cs ≠ [] ∧ cs.head? ≠ some ' ') ∧ isScalar cs = true := by
  rw [isScalar, Bool.and_eq_true]
  refine and_congr_left fun _ => ?_
  by_cases hc : c = ':'
  · simp [hc]
  · simp [hc]

theorem isScalar_append {a b : Line} (ha : isScalar a = true) (hb : isScalar b = true) :
    isScalar (a ++ b) = true := by
  induction a with
  | nil => exact hb
  | cons c a ih =>
    obtain ⟨hcolon, htail⟩ := isScalar_cons.mp ha
    refine isScalar_cons.mpr ⟨fun hc => ?_, ih htail⟩
    obtain ⟨hne, hhead⟩ := hcolon hc
    refine ⟨List.append_ne_nil_of_left_ne_nil hne _, ?_⟩
    rwa [List.append_eq, List.head?_append_of_ne_nil _ hne]

theorem isScalar_drop {p : Line} (h : isScalar p = true) (n : ℕ) : isScalar (p.drop n) = true := by
  induction p generalizing n with
  | nil => rw [List.drop_nil]; rfl
  | cons c p ih =>
    cases n with
    | zero => exact h
    | succ n => exact ih (isScalar_cons.mp h).2 n

theorem not_isScalar (a rest : Line) : ¬ isScalar (a ++ ':' :: ' ' :: rest) = true := by
  induction a with
  | nil => exact fun h => ((isScalar_cons.mp h).1 rfl).2 rfl
  | cons c a ih => exact fun h => ih (isScalar_cons.mp h).2

/-- A line is taken apart at one place only, behind a key and before a scalar. -/
theorem keyed_inj {u w p rest : Line} (hu : ':' ∉ u) (hp : isScalar p = true)
    (h : u ++ ':' :: ' ' :: p = w ++ ':' :: ' ' :: rest) : u = w ∧ p = rest := by
  rcases List.append_eq_append_iff.mp h with ⟨x, rfl, hx⟩ | ⟨x, rfl, hx⟩
  · match x, hx with
    | [], hx => exact ⟨(List.append_nil u).symm, by simpa using hx⟩
    | [c], hx =>
      obtain ⟨-, hspace⟩ := List.cons.inj hx
      exact absurd (List.cons.inj hspace).1 (by decide)
    | c :: c' :: x, hx =>
      obtain ⟨-, htail⟩ := List.cons.inj hx
      obtain ⟨-, rfl⟩ := List.cons.inj htail
      exact absurd hp (not_isScalar x rest)
  · cases x with
    | nil => exact ⟨List.append_nil w, by simpa using hx.symm⟩
    | cons c x =>
      obtain ⟨rfl, -⟩ := List.cons.inj hx
      exact absurd (List.mem_append_right _ List.mem_cons_self) hu

/-- A match begins with the key of the directory. -/
theorem key_of_directoryRegexp {d : Directory} {q : Path} {text : Line}
    (h : (directoryRegexp d q text).isSome) :
    ∃ rest, text = d.key ++ rest ∧ fits (regexp q) rest = true := by
  have hfits : fits (regexp (d.key ++ q)) text = true := by
    by_contra hfits
    rw [directoryRegexp, ofClasses, if_neg hfits] at h
    cases h
  rw [regexp, List.map_append] at hfits
  obtain ⟨key, rest, rfl, hlength, hkey, hrest⟩ := fits_append_left.mp hfits
  rw [List.length_map] at hlength
  obtain rfl := eq_of_fits (by cases d <;> decide) hlength hkey
  exact ⟨rest, rfl, hrest⟩

theorem directoryRegexp_blank {n : ℕ} {a b : Line} {c : Char} (d : Directory) (q : Path)
    (hblank : List.replicate n ' ' = a ++ c :: b) (text : Line) :
    directoryRegexp d q (c :: b ++ text) = none := by
  have hmem : c ∈ List.replicate n ' ' := by simp [hblank]
  obtain rfl := List.eq_of_mem_replicate hmem
  rw [directoryRegexp, ofClasses, if_neg]
  cases d <;> exact Bool.false_ne_true

theorem key_eq (d : Directory) (text : Line) : d.key ++ text = d.name ++ ':' :: ' ' :: text := by
  simp [Directory.key]

theorem colon_notMem_name (n : ℕ) (d : Directory) : ':' ∉ List.replicate n ' ' ++ d.name := by
  rw [List.mem_append, not_or]
  exact ⟨fun hmem => absurd (List.eq_of_mem_replicate hmem) (by decide), by cases d <;> decide⟩

/-- In such a line only its own key matches, and only with a path that its own begins with. -/
theorem found_directoryLine {n : ℕ} {d d' : Directory} {p q : Path} (hp : isScalar p = true)
    (h : found (directoryRegexp d' q) (directoryLine n d p) = true) :
    d' = d ∧ fits (regexp q) p = true := by
  obtain ⟨a, b, hline, hsome⟩ := exists_of_found h
  obtain ⟨rest, rfl, hrest⟩ := key_of_directoryRegexp hsome
  rw [directoryLine, key_eq, key_eq, ← List.append_assoc, ← List.append_assoc] at hline
  obtain ⟨hnames, rfl⟩ := keyed_inj (colon_notMem_name n d) hp hline
  exact ⟨(Directory.name_inj hnames).symm, hrest⟩

theorem replaceDirectory_other {n : ℕ} {d d' : Directory} {p q r : Path} (hp : isScalar p = true)
    (h : d' = d → fits (regexp q) p = false) :
    replaceDirectory d' q r (directoryLine n d p) = directoryLine n d p := by
  refine replace_eq_self ?_
  by_contra hfound
  obtain ⟨rfl, hfits⟩ := found_directoryLine hp (Bool.not_eq_false _ ▸ hfound)
  rw [h rfl] at hfits
  cases hfits

theorem key_notFound {d : Directory} {p : Path} {text : Line} (h : isScalar text = true) :
    found (directoryRegexp d p) text = false := by
  refine Bool.eq_false_iff.mpr fun hfound => ?_
  obtain ⟨a, b, rfl, hsome⟩ := exists_of_found hfound
  obtain ⟨rest, rfl, -⟩ := key_of_directoryRegexp hsome
  rw [key_eq, ← List.append_assoc] at h
  exact not_isScalar _ rest h

theorem fits_key {d : Directory} {p q : Path} (h : fits (regexp q) p = true) :
    fits (regexp (d.key ++ q)) (d.key ++ p) = true := by
  rw [regexp, List.map_append]
  exact fits_append_left.mpr ⟨d.key, p, rfl, by rw [List.length_map], fits_regexp_self d.key, h⟩

theorem length_le_of_fits {q a : Line} (h : fits (regexp q) a = true) : q.length ≤ a.length := by
  rw [← List.append_nil (regexp q)] at h
  obtain ⟨b, c, rfl, hlength, -, -⟩ := fits_append_left.mp h
  rw [regexp, List.length_map] at hlength
  rw [List.length_append]
  omega

/-- What a replacement makes of a path that stands behind its key. -/
def rewritten (old new p : Path) : Path :=
  if fits (regexp old) p then new ++ p.drop old.length else p

theorem replaceDirectory_rewritten (n : ℕ) (d : Directory) (old new : Path) {p : Path}
    (hp : isScalar p = true) :
    replaceDirectory d old new (directoryLine n d p) = directoryLine n d (rewritten old new p) := by
  by_cases h : fits (regexp old) p = true
  · have hsplit : d.key ++ p = (d.key ++ p.take old.length) ++ p.drop old.length := by
      rw [List.append_assoc, List.take_append_drop]
    have hlength : (d.key ++ p.take old.length).length = (regexp (d.key ++ old)).length := by
      rw [regexp, List.length_map, List.length_append, List.length_append, List.length_take,
        Nat.min_eq_left (length_le_of_fits h)]
    have hmatch : directoryRegexp d old ((d.key ++ p.take old.length) ++ p.drop old.length) =
        some (d.key ++ p.take old.length).length := by
      rw [← hsplit, directoryRegexp, ofClasses, if_pos (fits_key h), hlength]
    have hbefore : ∀ a c b, List.replicate n ' ' = a ++ c :: b → directoryRegexp d old
        (c :: b ++ ((d.key ++ p.take old.length) ++ p.drop old.length)) = none :=
      fun a c b hab => directoryRegexp_blank d old hab _
    have hrest : replace (directoryRegexp d old) (d.key ++ new) (p.drop old.length) =
        p.drop old.length :=
      replace_eq_self (key_notFound (isScalar_drop hp _))
    rw [directoryLine, directoryLine, replaceDirectory, hsplit,
      replace_at (d.key ++ new) _ (by cases d <;> exact List.cons_ne_nil _ _) hbefore hmatch,
      hrest, rewritten, if_pos h, List.append_assoc d.key]
  · rw [rewritten, if_neg h]
    exact replaceDirectory_other hp fun _ => Bool.not_eq_true _ ▸ h

/-- What follows the path in the line stays behind the new one. -/
theorem replaceDirectory_own (n : ℕ) (d : Directory) {p q : Path} {rest : Line}
    (hp : isScalar (p ++ rest) = true) :
    replaceDirectory d p q (directoryLine n d (p ++ rest)) = directoryLine n d (q ++ rest) := by
  rw [replaceDirectory_rewritten n d p q hp, rewritten, if_pos (fits_append (fits_regexp_self p) _),
    List.drop_left]

/-! ## Attempts and the rollback -/

/-- While nothing is removed or renamed, the lines differ from the first ones in directories
that were replaced. -/
def Vars.Variant (v : Vars) (line line' : Line) : Prop :=
  (v.Foreign line ∧ line' = line) ∨
    ∃ n d rest, isScalar rest = true ∧ v.Apart d rest ∧
      line = directoryLine n d (v.pgOld d ++ rest) ∧
      (line' = directoryLine n d (v.pgOld d ++ rest) ∨
        line' = directoryLine n d (v.pgNew d ++ rest))

theorem Variant.replace (hs : v.PathsSimple) {line line' : Line} (hline : v.Variant line line')
    (d : Directory) : v.Variant line (replaceDirectory d (v.pgOld d) (v.pgNew d) line') := by
  rcases hline with ⟨hforeign, rfl⟩ | ⟨n, e, rest, hrest, hapart, rfl, rfl | rfl⟩
  · exact .inl ⟨hforeign, replace_eq_self (hforeign d).1⟩
  · refine .inr ⟨n, e, rest, hrest, hapart, rfl, ?_⟩
    have hscalar := isScalar_append (hs e).1.scalar hrest
    by_cases hde : d = e
    · subst hde
      exact .inr (replaceDirectory_own n d hscalar)
    · exact .inl (replaceDirectory_other hscalar fun heq => absurd heq hde)
  · have hscalar := isScalar_append (hs e).2.scalar hrest
    refine .inr ⟨n, e, rest, hrest, hapart, rfl, .inr (replaceDirectory_other hscalar ?_)⟩
    rintro rfl
    exact hapart.forth

/-- One turn of the rollback's loop brings the old directory back and leaves the others. -/
theorem Variant.restored (hs : v.PathsSimple) {line line' : Line}
    (hline : v.Variant line line') :
    [Directory.data, .bin, .config].foldl
      (fun l d => replaceDirectory d (v.pgNew d) (v.pgOld d) l) line' = line := by
  rcases hline with ⟨hforeign, rfl⟩ | ⟨n, e, rest, hrest, hapart, rfl, hline'⟩
  · simp only [List.foldl_cons, List.foldl_nil, replaceDirectory,
      replace_eq_self (hforeign _).2]
  · have hold : ∀ d, replaceDirectory d (v.pgNew d) (v.pgOld d)
        (directoryLine n e (v.pgOld e ++ rest)) = directoryLine n e (v.pgOld e ++ rest) := by
      intro d
      refine replaceDirectory_other (isScalar_append (hs e).1.scalar hrest) ?_
      rintro rfl
      exact hapart.back
    have hnew := isScalar_append (hs e).2.scalar hrest
    have hother : ∀ d, d ≠ e → replaceDirectory d (v.pgNew d) (v.pgOld d)
        (directoryLine n e (v.pgNew e ++ rest)) = directoryLine n e (v.pgNew e ++ rest) :=
      fun d hde => replaceDirectory_other hnew fun heq => absurd heq hde
    rcases hline' with rfl | rfl
    · simp only [List.foldl_cons, List.foldl_nil, hold]
    · simp only [List.foldl_cons, List.foldl_nil]
      cases e with
      | data => rw [replaceDirectory_own n .data hnew, hold, hold]
      | bin => rw [hother .data (by decide), replaceDirectory_own n .bin hnew, hold]
      | config =>
        rw [hother .data (by decide), hother .bin (by decide), replaceDirectory_own n .config hnew]

/-- An attempt backs up the file it finds. -/
theorem bkp_attempt (s : Files) (k : ℕ) :
    (run v.step s (updateConfig.take (k + 1))).bkp = some s.yml := by
  have htail : ∀ t ∈ updateConfig.tail.take k, t ≠ Task.backup := by
    intro t ht
    have hmem := List.mem_of_mem_take ht
    rintro rfl
    simp [updateConfig] at hmem
  refine run_of_mem (I := fun t => t.bkp = some s.yml) (fun t ht u hu => ?_) (s := v.step s .backup)
    rfl
  cases t with
  | backup => exact absurd rfl (htail _ ht)
  | _ => exact hu

theorem rollback_attempts (ks : List ℕ) (k : ℕ) (s : Files) :
    (v.rollback (run v.step s (attempts (ks ++ [k])))).yml =
      v.restorePaths (run v.step s (attempts ks)).yml := by
  rw [attempts, List.flatMap_append, run_append, List.flatMap_singleton, Vars.rollback,
    bkp_attempt]
  rfl

theorem size_step_le (hs : v.PathsSimple) (s : Files) (t : Task) :
    (v.step s t).yml.size ≤ s.yml.size := by
  cases t with
  | backup => exact Nat.le_refl _
  | _ => exact size_edit_le hs _

theorem size_step_lt (s : Files) (t : Task) (h : ¬ v.removes t s.yml = false) :
    (v.step s t).yml.size < s.yml.size := by
  have hremoves : v.removes t s.yml = true := Bool.not_eq_false _ ▸ h
  cases t with
  | backup => cases hremoves
  | _ => exact size_edit_lt hremoves

theorem size_restorePaths (hs : v.PathsSimple) (y : Yml) : (v.restorePaths y).size = y.size := by
  have hsize : ∀ (d : Directory) (y : Yml),
      (v.replacePath d (v.pgNew d) (v.pgOld d) y).size = y.size :=
    fun d y => size_replacePath (hs d).2 (hs d).1 d y
  simp only [Vars.restorePaths, List.foldl_cons, List.foldl_nil, hsize]

theorem restorePaths_variant (hs : v.PathsSimple) {y₀ : Yml} {edited : Line → Line}
    (hedited : ∀ line ∈ y₀.all, v.Variant line (edited line)) :
    v.restorePaths (y₀.map edited) = y₀ := by
  have hreplace : ∀ (d : Directory) (y : Yml), v.replacePath d (v.pgNew d) (v.pgOld d) y =
      y.map (replaceDirectory d (v.pgNew d) (v.pgOld d)) :=
    fun d y => replacePath_eq (hs d).2 (hs d).1 d y
  simp only [Vars.restorePaths, List.foldl_cons, List.foldl_nil, hreplace, File.map_map]
  exact File.map_eq_self fun line hline => Variant.restored hs (hedited line hline)

/-- The rollback restores a file that names no new path if no attempt before the last one removed
or renamed a parameter; after a removal it restores no file. -/
theorem rollback_restores (v : Vars) (hs : v.PathsSimple) (ks : List ℕ) (k : ℕ) (s : Files) :
    (v.NamesOld s.yml →
        Along v.step (fun s t => v.removes t s.yml = false ∧ v.renames t s.yml = false) s
          (attempts ks) →
        (v.rollback (run v.step s (attempts (ks ++ [k])))).yml = s.yml) ∧
      ((v.rollback (run v.step s (attempts (ks ++ [k])))).yml = s.yml →
        Along v.step (fun s t => v.removes t s.yml = false) s (attempts ks)) := by
  rw [rollback_attempts]
  constructor
  · intro hold hfinds
    have hinv := run_of_along
      (I := fun t => ∃ edited, t.yml = s.yml.map edited ∧
        ∀ line ∈ s.yml.all, v.Variant line (edited line))
      (fun t a ht hg => ?_) ⟨id, ?_, ?_⟩ hfinds
    · obtain ⟨edited, hyml, hedited⟩ := hinv
      rw [hyml]
      exact restorePaths_variant hs hedited
    · obtain ⟨edited, hyml, hedited⟩ := ht
      cases a with
      | replaceDirectory d =>
        refine ⟨replaceDirectory d (v.pgOld d) (v.pgNew d) ∘ edited, ?_, ?_⟩
        · rw [← File.map_map, ← hyml]
          exact replacePath_eq (hs d).1 (hs d).2 d t.yml
        · intro line hline
          exact Variant.replace hs (hedited line hline) d
      | backup => exact ⟨edited, hyml, hedited⟩
      | _ =>
        refine ⟨edited, ?_, hedited⟩
        rw [← hyml]
        exact edit_eq_self hg.1 hg.2 fun d => by intro h; cases h
    · exact (File.map_eq_self fun line _ => rfl).symm
    · intro line hline
      rcases hold line hline with hforeign | ⟨n, d, rest, hrest, hapart, rfl⟩
      · exact .inl ⟨hforeign, rfl⟩
      · exact .inr ⟨n, d, rest, hrest, hapart, rfl, .inl rfl⟩
  · intro hrestored
    refine along_of_measure (μ := fun t => t.yml.size) (size_step_le hs) size_step_lt ?_
    calc s.yml.size = (v.restorePaths (run v.step s (attempts ks)).yml).size :=
          congrArg File.size hrestored.symm
      _ ≤ (run v.step s (attempts ks)).yml.size := Nat.le_of_eq (size_restorePaths hs _)

/-- An upgrade from 17 to 18. -/
def sampleVars : Vars where
  pgOldVersion := 17
  pgNewVersion := 18
  pgOld := Directory.choose "/pg/17/main".toList "/lib/17/bin".toList "/etc/17/main".toList
  pgNew := Directory.choose "/pg/18/main".toList "/lib/18/bin".toList "/etc/18/main".toList
  int := fun _ => 0
  sub := fun _ _ y => y

def sampleFile (parameter : String) : Files where
  yml := ⟨["  data_dir: /pg/17/main/".toList, parameter.toList], []⟩
  bkp := none

/-- Two attempts from 17 to 18, and the parameter is gone. -/
theorem second_attempt_loses_parameter :
    (sampleVars.rollback (run sampleVars.step (sampleFile "    ssl_ecdh_curve: prime256v1")
      (attempts [17, 17]))).yml ≠ (sampleFile "    ssl_ecdh_curve: prime256v1").yml := by
  decide +kernel

theorem second_attempt_keeps_parameter :
    (sampleVars.rollback (run sampleVars.step (sampleFile "    ssl: on")
      (attempts [17, 17]))).yml = (sampleFile "    ssl: on").yml := by
  have hsimple : sampleVars.PathsSimple := by
    intro d
    cases d <;> decide +kernel
  refine (rollback_restores sampleVars hsimple [17] 17 _).1 ?_ (by decide +kernel)
  intro line hline
  rcases List.mem_cons.mp hline with rfl | hline
  · exact .inr ⟨2, .data, ['/'], by decide, ⟨by decide, by decide⟩, by decide⟩
  · refine .inl fun d => ?_
    rcases List.mem_cons.mp hline with rfl | hline
    · cases d <;> decide
    · obtain rfl := List.mem_singleton.mp hline
      exact ⟨rfl, rfl⟩

end PatroniConfigBackup
