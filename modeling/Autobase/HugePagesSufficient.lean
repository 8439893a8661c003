import Autobase.HugePagesEffect

/-! # Enough huge pages for shared_buffers

A setting of shared_buffers is an integer with a unit or without one. The block only knows the
size of two units, and it is content with what the host has or what the list says first, while the
role sysctl applies what the host's groups say last. -/
namespace HugePages

open TemplateValues SysctlConf

attribute [local instance] lawfulBEq_text

/-! ## Settings -/

inductive MemoryUnit where
  | kB | MB | GB | TB
  deriving DecidableEq

namespace MemoryUnit

def name : MemoryUnit → Text
  | kB => "kB".toList
  | MB => "MB".toList
  | GB => "GB".toList
  | TB => "TB".toList

def kilobytes : MemoryUnit → ℕ
  | kB => 1
  | MB => 1024
  | GB => 1024 * 1024
  | TB => 1024 * 1024 * 1024

end MemoryUnit

/-- An integer and its unit, with blanks between. -/
structure Setting where
  digits : Text
  gap : Text
  unit : Option MemoryUnit
  digits_ne : digits ≠ []
  digits_all : ∀ ch ∈ digits, ch.isDigit = true
  gap_blank : ∀ ch ∈ gap, ch = ' '

namespace Setting

variable (s : Setting)

def unitName : Text := (s.unit.map MemoryUnit.name).getD []

def text : Text := s.digits ++ (s.gap ++ s.unitName)

def value : ℕ := number s.digits

/-- Without a unit the integer counts blocks of 8 kB. -/
def kilobytes : ℕ := s.value * (s.unit.map MemoryUnit.kilobytes).getD 8

/-- The gigabytes that the block reads. -/
def gigabytes : Option ℕ :=
  match s.unit with
  | some .MB => some (s.value / 1024)
  | some .GB => some s.value
  | _ => none

variable {s}

/-! ## Reading the text -/

theorem isLetter_of_isDigit {ch : Char} (h : ch.isDigit = true) : isLetter ch = false := by
  have hd : 48 ≤ ch.toNat ∧ ch.toNat ≤ 57 := by
    simpa [Char.isDigit, UInt32.le_iff_toNat_le] using h
  have hupper : ch.isUpper = false := by
    refine Bool.eq_false_iff.mpr fun hu => ?_
    have hbounds : 'A'.val ≤ ch.val ∧ ch.val ≤ 'Z'.val := of_decide_eq_true hu
    have hle : 65 ≤ ch.toNat := UInt32.le_iff_toNat_le.mp hbounds.1
    omega
  have hlower : ch.isLower = false := by
    refine Bool.eq_false_iff.mpr fun hl => ?_
    have hbounds : (decide ('a'.val ≤ ch.val) && decide (ch.val ≤ 'z'.val)) = true := hl
    have hle : 97 ≤ ch.toNat :=
      UInt32.le_iff_toNat_le.mp (of_decide_eq_true (Bool.and_eq_true_iff.mp hbounds).1)
    omega
  rw [isLetter, hupper, hlower]
  rfl

theorem firstRun_append {p : Char → Bool} {xs ys : Text} (hxs : xs ≠ []) (hall : ∀ ch ∈ xs, p ch)
    (hnone : ∀ ch ∈ ys, p ch = false) : firstRun p (xs ++ ys) = xs := by
  obtain ⟨x, rest, rfl⟩ := List.exists_cons_of_ne_nil hxs
  have hx : ¬ (!p x) = true := by
    rw [hall x List.mem_cons_self]
    decide
  rw [firstRun, List.cons_append, List.dropWhile_cons, if_neg hx, ← List.cons_append,
    List.takeWhile_append_of_pos hall]
  have hnil : ys.takeWhile p = [] := by
    cases ys with
    | nil => rfl
    | cons y ys =>
      refine List.takeWhile_cons_of_neg ?_
      rw [hnone y List.mem_cons_self]
      decide
  rw [hnil, List.append_nil]

theorem firstRun_drop {p : Char → Bool} {xs ys : Text} (hxs : ∀ ch ∈ xs, p ch = false) :
    firstRun p (xs ++ ys) = firstRun p ys := by
  have hdrop : ∀ ch ∈ xs, (!p ch) = true := by
    intro ch hch
    rw [hxs ch hch]
    rfl
  rw [firstRun, List.dropWhile_append_of_pos hdrop, firstRun]

theorem gap_isLetter : ∀ ch ∈ s.digits ++ s.gap, isLetter ch = false := by
  intro ch hch
  rcases List.mem_append.mp hch with hdigit | hgap
  · exact isLetter_of_isDigit (s.digits_all ch hdigit)
  · rw [s.gap_blank ch hgap]
    decide

theorem firstRun_digits : firstRun Char.isDigit s.text = s.digits := by
  refine firstRun_append s.digits_ne s.digits_all fun ch hch => ?_
  rcases List.mem_append.mp hch with hgap | hunit
  · rw [s.gap_blank ch hgap]
    decide
  · have hnames : ∀ u : MemoryUnit, ∀ ch ∈ u.name, ch.isDigit = false := by
      intro u ch hch
      have hall : u.name.all (fun ch => !ch.isDigit) = true := by
        cases u <;> decide
      simpa using List.all_eq_true.mp hall ch hch
    rw [unitName] at hunit
    cases hu : s.unit with
    | none => rw [hu] at hunit; exact absurd hunit List.not_mem_nil
    | some u => rw [hu] at hunit; exact hnames u ch hunit

theorem firstRun_letters : firstRun isLetter s.text = s.unitName := by
  rw [text, ← List.append_assoc, firstRun_drop gap_isLetter, unitName]
  cases s.unit with
  | none => rfl
  | some u => cases u <;> decide

theorem unitText_eq : unitText s.text =
    if s.unitName = [] then "none".toList else s.unitName.map Char.toLower := by
  rw [unitText, firstRun_letters]

end Setting

namespace Variables

variable {c : Variables} {int : Text → ℤ} {h : Host} {entries : List Entry} {s : Setting}

/-- The size is read for megabytes and gigabytes. -/
theorem sharedBuffersGb_eq (htext : c.sharedBuffers = s.text) :
    c.sharedBuffersGb = s.gigabytes := by
  have hunits : unitText s.text = (match s.unit with
      | none => "none".toList
      | some .kB => "kb".toList
      | some .MB => "mb".toList
      | some .GB => "gb".toList
      | some .TB => "tb".toList) := by
    rw [Setting.unitText_eq, Setting.unitName]
    cases s.unit with
    | none => rfl
    | some u => cases u <;> decide
  rw [sharedBuffersGb, sharedBuffersValue, htext, Setting.firstRun_digits, hunits,
    Setting.gigabytes, ← Setting.value]
  cases s.unit with
  | none => rw [if_neg (by decide), if_neg (by decide)]
  | some u =>
    cases u with
    | kB => rw [if_neg (by decide), if_neg (by decide)]
    | MB => rw [if_pos rfl]
    | GB => rw [if_neg (by decide), if_pos rfl]
    | TB => rw [if_neg (by decide), if_neg (by decide)]

/-! ## Pages after the role -/

/-- The huge pages of a host after sysctl_conf was applied. -/
def pages (int : Text → ℤ) (conf : Conf) (h : Host) : ℤ :=
  ((applied conf h.groupNames nrHugepages).map (toInt int)).getD h.hugePagesTotal

/-- The block stops, or the host has the pages for the size afterwards. -/
def Covered (c : Variables) (int : Text → ℤ) (h : Host) (kilobytes : ℕ) : Prop :=
  ∀ conf, c.hugePages int h = .ok conf → (kilobytes : ℤ) ≤ pages int conf h * h.hugePageSize

/-- What sysctl_conf gives the host suffices as it is. -/
def Listed (c : Variables) (int : Text → ℤ) (h : Host) (kilobytes : ℕ) : Prop :=
  (kilobytes : ℤ) ≤ pages int c.sysctlConf h * h.hugePageSize

/-- For a size that the block reads as large and looks up, the computed pages suffice when it sets
them, and otherwise those that the host has anyway. -/
def Provided (c : Variables) (int : Text → ℤ) (h : Host) (s : Setting) : Prop :=
  if postgresCluster ∈ h.groupNames ∧ c.minSharedBuffersGb.getD 8 ≤ s.gigabytes.getD 0 then
    ∀ entries, c.sysctlConf postgresCluster = some entries → Named entries →
      if c.Short int h entries then s.kilobytes ≤ c.hugePagesRequired h * h.hugePageSize
      else c.Listed int h s.kilobytes
  else c.Listed int h s.kilobytes

theorem covered_of_eq {kilobytes : ℕ} (hconf : c.hugePages int h = .ok c.sysctlConf) :
    c.Covered int h kilobytes ↔ c.Listed int h kilobytes := by
  rw [Covered, hconf]
  refine ⟨fun hc => hc _ rfl, fun hl conf hok => ?_⟩
  rw [← Except.ok.inj hok]
  exact hl

theorem covered_of_stop {kilobytes : ℕ} {stop : Stop} (hstop : c.hugePages int h = .error stop) :
    c.Covered int h kilobytes := by
  intro conf hok
  rw [hstop] at hok
  cases hok

/-- A new sysctl_conf has the computed number of pages. -/
theorem pages_withSetting (hgroup : postgresCluster ∈ h.groupNames) (hnamed : Named entries)
    (n : ℤ) : pages int (single postgresCluster (withSetting nrHugepages (.number n) entries)) h =
      n := by
  rw [pages, applied, settingsFor_withSetting_self h.nodup hgroup hnamed]
  rfl

theorem covered_of_short {kilobytes : ℕ} (hl : c.Looks h)
    (hconf : c.sysctlConf postgresCluster = some entries) (hs : Named entries)
    (hshort : c.Short int h entries) (hauto : c.hugePagesAutoConf = true) :
    c.Covered int h kilobytes ↔ kilobytes ≤ c.hugePagesRequired h * h.hugePageSize := by
  have heq := hugePages_of_short hl hconf hs hshort hauto
  rw [Covered, heq]
  have hpages : ∀ n, pages int
      (single postgresCluster (withSetting nrHugepages (.number n) entries)) h = n :=
    pages_withSetting hl.1.1 hs
  constructor
  · intro hc
    have hle := hc _ rfl
    rw [hpages] at hle
    exact_mod_cast hle
  · intro hle conf hok
    rw [← Except.ok.inj hok, hpages]
    exact_mod_cast hle

/-- Pages that divide a gigabyte are computed in sufficient number, with one gigabyte more against
the rounding of megabytes. -/
theorem required_suffices (htext : c.sharedBuffers = s.text)
    (hunit : s.unit = some .MB ∨ s.unit = some .GB)
    (hmore : 1 ≤ c.additionalHugePagesGb.getD 1) (hsize : 0 < h.hugePageSize)
    (hdvd : h.hugePageSize ∣ 1024 * 1024) :
    s.kilobytes ≤ c.hugePagesRequired h * h.hugePageSize := by
  have hrequired : c.hugePagesRequired h * h.hugePageSize =
      (s.gigabytes.getD 0 + c.additionalHugePagesGb.getD 1) * (1024 * 1024) := by
    rw [hugePagesRequired, if_pos hsize, sharedBuffersGb_eq htext, mul_assoc]
    exact Nat.div_mul_cancel (hdvd.mul_left _)
  have hgigabytes : s.kilobytes ≤ (s.gigabytes.getD 0 + 1) * (1024 * 1024) := by
    rcases hunit with hunit | hunit
    · simp only [Setting.kilobytes, Setting.gigabytes, hunit, Option.map_some, Option.getD_some,
        MemoryUnit.kilobytes]
      omega
    · simp only [Setting.kilobytes, Setting.gigabytes, hunit, Option.map_some, Option.getD_some,
        MemoryUnit.kilobytes]
      omega
  rw [hrequired]
  exact hgigabytes.trans (Nat.mul_le_mul_right _ (Nat.add_le_add_left hmore _))

/-! ## Examples -/

def oneTerabyte : Setting where
  digits := ['1']
  gap := []
  unit := some .TB
  digits_ne := List.cons_ne_nil _ _
  digits_all := List.all_eq_true.mp rfl
  gap_blank := List.forall_mem_nil _

def sixteenGigabytes : Setting where
  digits := ['1', '6']
  gap := []
  unit := some .GB
  digits_ne := List.cons_ne_nil _ _
  digits_all := List.all_eq_true.mp rfl
  gap_blank := List.forall_mem_nil _

def onlyPages (value : String) : Conf :=
  single postgresCluster [⟨.name nrHugepages, .text value.toList⟩]

end Variables

end HugePages
