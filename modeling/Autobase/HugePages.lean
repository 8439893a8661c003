import Autobase.SysctlConf
import Autobase.SharedPreloadLibraries
import Mathlib.Tactic.Ring

/-! # Huge pages for shared_buffers

The pre-checks read the size of shared_buffers from its text, compute the huge pages that it needs
and, when neither the host nor sysctl_conf has them, set vm.nr_hugepages in sysctl_conf. The task
takes the mapping for one with the group postgres_cluster alone and its settings for names. -/
namespace HugePages

open TemplateValues SysctlConf
open SharedPreloadLibraries (Parameter)

attribute [local instance] lawfulBEq_text

/-! ## Variables -/

structure Variables where
  localPostgresqlParameters : List Parameter
  postgresqlParameters : List Parameter
  minSharedBuffersGb : Option ℕ
  additionalHugePagesGb : Option ℕ
  sysctlSet : Bool
  hugePagesAutoConf : Bool
  sysctlConf : Conf

/-- A host has its groups, each once, and what /proc/meminfo says of huge pages, in kB. -/
structure Host where
  groupNames : List Text
  hugePageSize : ℕ
  hugePagesTotal : ℕ
  nodup : groupNames.Nodup

def postgresCluster : Text := "postgres_cluster".toList

def nrHugepages : Text := "vm.nr_hugepages".toList

/-! ## Texts of sizes -/

def isLetter (ch : Char) : Bool := ch.isUpper || ch.isLower

/-- The first run of characters of a class. -/
def firstRun (p : Char → Bool) (t : Text) : Text := (t.dropWhile fun ch => !p ch).takeWhile p

def number (digits : Text) : ℕ := digits.foldl (fun n ch => 10 * n + (ch.toNat - 48)) 0

/-- The unit in small letters; `lower` of no match is `none`. -/
def unitText (t : Text) : Text :=
  if firstRun isLetter t = [] then "none".toList else (firstRun isLetter t).map Char.toLower

namespace Variables

variable (c : Variables)

/-- The first value for an option on the host, else in the cluster. -/
def firstValue (option default : Text) : Text :=
  let valueIn (parameters : List Parameter) :=
    (parameters.find? fun p => p.option = option).map Parameter.value
  match valueIn c.localPostgresqlParameters with
  | some (ch :: t) => ch :: t
  | _ => (valueIn c.postgresqlParameters).getD default

def hugePagesMode : Text := c.firstValue "huge_pages".toList "try".toList

def sharedBuffers : Text := c.firstValue "shared_buffers".toList "128MB".toList

def sharedBuffersValue : ℕ := number (firstRun Char.isDigit c.sharedBuffers)

/-- The fact is only set for two of the units. -/
def sharedBuffersGb : Option ℕ :=
  if unitText c.sharedBuffers = "mb".toList then some (c.sharedBuffersValue / 1024)
  else if unitText c.sharedBuffers = "gb".toList then some c.sharedBuffersValue
  else none

def Large : Prop := c.minSharedBuffersGb.getD 8 ≤ c.sharedBuffersGb.getD 0

def hugePagesRequired (h : Host) : ℕ :=
  (c.sharedBuffersGb.getD 0 + c.additionalHugePagesGb.getD 1) * 1024 * 1024 /
    if h.hugePageSize > 0 then h.hugePageSize else 2048

/-- The condition of the block. -/
def Active : Prop :=
  c.hugePagesMode ≠ "off".toList ∧ (c.sysctlSet = true ∨ c.hugePagesMode = "on".toList)

instance : Decidable c.Large := inferInstanceAs (Decidable (_ ≤ _))

instance : Decidable c.Active := inferInstanceAs (Decidable (_ ∧ _))

/-! ## Tasks -/

def postgresClusterConf : Except Stop (List Entry) :=
  match c.sysctlConf postgresCluster with
  | none => .error .undefined
  | some entries => .ok entries

variable (int : Text → ℤ)

/-- Check if vm.nr_hugepages is already set sufficiently in sysctl_conf variable. -/
def confSufficient (h : Host) : Except Stop Bool :=
  if c.sysctlSet = true then do
    let entries ← c.postgresClusterConf
    let value ← firstNamed nrHugepages entries
    pure (decide ((c.hugePagesRequired h : ℤ) ≤ (value.map (toInt int)).getD 0))
  else pure false

/-- Specify vm.nr_hugepages in sysctl_conf variable. -/
def specified (h : Host) (sufficient : Bool) : Except Stop Conf :=
  if h.hugePagesTotal < c.hugePagesRequired h ∧ sufficient = false ∧ c.hugePagesAutoConf = true ∧
      c.sysctlSet = true then do
    let entries ← c.postgresClusterConf
    let rest ← rejectNamed nrHugepages entries
    pure (single postgresCluster
      (rest ++ [⟨.name nrHugepages, .number (c.hugePagesRequired h)⟩]))
  else pure c.sysctlConf

/-- The last task stops because the pages do not suffice. -/
def Insufficient (h : Host) (sufficient : Bool) : Prop :=
  h.hugePagesTotal < c.hugePagesRequired h ∧ sufficient = false ∧
    (c.hugePagesAutoConf = false ∨ c.sysctlSet = false ∧ c.hugePagesMode = "on".toList)

instance (h : Host) (sufficient : Bool) : Decidable (c.Insufficient h sufficient) :=
  inferInstanceAs (Decidable (_ ∧ _))

/-- The block on a host, with the sysctl_conf that it leaves. It runs on the hosts of the cluster. -/
def hugePages (h : Host) : Except Stop Conf :=
  if postgresCluster ∈ h.groupNames ∧ c.Active ∧ c.Large then do
    let sufficient ← c.confSufficient int h
    let conf ← c.specified h sufficient
    if c.Insufficient h sufficient then .error .insufficient else pure conf
  else pure c.sysctlConf

/-! ## What the block does -/

/-- The block looks vm.nr_hugepages up. -/
def Looks (h : Host) : Prop :=
  (postgresCluster ∈ h.groupNames ∧ c.Active ∧ c.Large) ∧ c.sysctlSet = true

/-- Neither the host nor the list has the pages. -/
def Short (h : Host) (entries : List Entry) : Prop :=
  h.hugePagesTotal < c.hugePagesRequired h ∧
    ((listed nrHugepages entries).map (toInt int)).getD 0 < c.hugePagesRequired h

instance (h : Host) : Decidable (c.Looks h) := inferInstanceAs (Decidable (_ ∧ _))

instance (h : Host) (entries : List Entry) : Decidable (c.Short int h entries) :=
  inferInstanceAs (Decidable (_ ∧ _))

variable {c int} {h : Host} {entries : List Entry}

theorem hugePages_of_not_run (hrun : ¬ (postgresCluster ∈ h.groupNames ∧ c.Active ∧ c.Large)) :
    c.hugePages int h = .ok c.sysctlConf :=
  if_neg hrun

/-- Without sysctl the block can only stop. -/
theorem hugePages_of_not_set (hset : c.sysctlSet = false) :
    c.hugePages int h = .ok c.sysctlConf ∨ c.hugePages int h = .error .insufficient := by
  rw [hugePages]
  split
  · have hsufficient : c.confSufficient int h = .ok false := by
      rw [confSufficient, if_neg (by simp [hset])]
      rfl
    have hspecified : c.specified h false = .ok c.sysctlConf := by
      rw [specified, if_neg (by simp [hset])]
      rfl
    rw [hsufficient]
    show (do let conf ← c.specified h false; _) = _ ∨ (do let conf ← c.specified h false; _) = _
    rw [hspecified]
    by_cases hi : c.Insufficient h false
    · exact Or.inr (if_pos hi)
    · exact Or.inl (if_neg hi)
  · exact Or.inl rfl

theorem hugePages_of_missing (hl : c.Looks h) (hconf : c.sysctlConf postgresCluster = none) :
    c.hugePages int h = .error .undefined := by
  rw [hugePages, if_pos hl.1, confSufficient, if_pos hl.2, postgresClusterConf, hconf]
  rfl

theorem postgresClusterConf_eq (hconf : c.sysctlConf postgresCluster = some entries) :
    c.postgresClusterConf = .ok entries := by
  rw [postgresClusterConf, hconf]

theorem hugePages_of_not_named (hl : c.Looks h)
    (hconf : c.sysctlConf postgresCluster = some entries) (hs : ¬ Named entries) :
    c.hugePages int h = .error .undefined := by
  have hlookup : c.confSufficient int h = .error .undefined := by
    rw [confSufficient, if_pos hl.2, postgresClusterConf_eq hconf]
    show (do let value ← firstNamed nrHugepages entries; _) = _
    rw [firstNamed_eq, if_neg hs]
    rfl
  rw [hugePages, if_pos hl.1, hlookup]
  rfl

/-- After the lookup the tasks depend on the host and the listed value. -/
theorem hugePages_of_named (hl : c.Looks h)
    (hconf : c.sysctlConf postgresCluster = some entries) (hs : Named entries)
    {sufficient : Bool} (hsufficient : sufficient = decide ((c.hugePagesRequired h : ℤ) ≤
      ((listed nrHugepages entries).map (toInt int)).getD 0)) {conf : Except Stop Conf}
    (hspecified : c.specified h sufficient = conf) :
    c.hugePages int h = (do
      let conf ← conf
      if c.Insufficient h sufficient then .error .insufficient else pure conf) := by
  have hlookup : c.confSufficient int h = .ok sufficient := by
    rw [confSufficient, if_pos hl.2, postgresClusterConf_eq hconf]
    show (do let value ← firstNamed nrHugepages entries; _) = _
    rw [firstNamed_eq, if_pos hs, hsufficient]
    rfl
  rw [hugePages, if_pos hl.1, hlookup, ← hspecified]
  rfl

theorem hugePages_of_not_short (hl : c.Looks h)
    (hconf : c.sysctlConf postgresCluster = some entries) (hs : Named entries)
    (hshort : ¬ c.Short int h entries) : c.hugePages int h = .ok c.sysctlConf := by
  have hnot : ¬ (h.hugePagesTotal < c.hugePagesRequired h ∧
      decide ((c.hugePagesRequired h : ℤ) ≤ ((listed nrHugepages entries).map (toInt int)).getD 0) =
        false) := by
    rw [decide_eq_false_iff_not, not_le]
    exact hshort
  rw [hugePages_of_named hl hconf hs rfl
    (if_neg fun hc => hnot ⟨hc.1, hc.2.1⟩)]
  exact if_neg fun hc => hnot ⟨hc.1, hc.2.1⟩

theorem specified_of_short (hl : c.Looks h)
    (hconf : c.sysctlConf postgresCluster = some entries) (hs : Named entries)
    (hshort : c.Short int h entries) (hauto : c.hugePagesAutoConf = true) :
    c.specified h false = .ok (single postgresCluster
      (withSetting nrHugepages (.number (c.hugePagesRequired h)) entries)) := by
  rw [specified, if_pos ⟨hshort.1, rfl, hauto, hl.2⟩, postgresClusterConf_eq hconf]
  show (do let rest ← rejectNamed nrHugepages entries; _) = _
  rw [rejectNamed_eq, if_pos hs]
  rfl

theorem not_sufficient_of_short (hshort : c.Short int h entries) :
    false = decide ((c.hugePagesRequired h : ℤ) ≤
      ((listed nrHugepages entries).map (toInt int)).getD 0) := by
  rw [eq_comm, decide_eq_false_iff_not, not_le]
  exact hshort.2

theorem hugePages_of_short (hl : c.Looks h)
    (hconf : c.sysctlConf postgresCluster = some entries) (hs : Named entries)
    (hshort : c.Short int h entries) (hauto : c.hugePagesAutoConf = true) :
    c.hugePages int h = .ok (single postgresCluster
      (withSetting nrHugepages (.number (c.hugePagesRequired h)) entries)) := by
  rw [hugePages_of_named hl hconf hs (not_sufficient_of_short hshort)
    (specified_of_short hl hconf hs hshort hauto)]
  refine if_neg ?_
  rintro ⟨-, -, hmanual | ⟨hset, -⟩⟩
  · exact absurd (hauto.symm.trans hmanual) (by decide)
  · exact absurd (hl.2.symm.trans hset) (by decide)

theorem hugePages_of_short_manual (hl : c.Looks h)
    (hconf : c.sysctlConf postgresCluster = some entries) (hs : Named entries)
    (hshort : c.Short int h entries) (hauto : c.hugePagesAutoConf = false) :
    c.hugePages int h = .error .insufficient := by
  have hspecified : c.specified h false = .ok c.sysctlConf :=
    if_neg fun hc => absurd (hauto.symm.trans hc.2.2.1) (by decide)
  rw [hugePages_of_named hl hconf hs (not_sufficient_of_short hshort) hspecified]
  exact if_pos ⟨hshort.1, rfl, Or.inl hauto⟩

end Variables

end HugePages
