import Autobase.HugePages

/-! # What the huge pages block leaves on a host

After the block the role sysctl applies the settings. Two things should hold then: the pages
suffice for shared_buffers, and nothing else has changed. -/
namespace HugePages

open TemplateValues SysctlConf

attribute [local instance] lawfulBEq_text

/-! ## Other kernel parameters -/

namespace Variables

variable {c : Variables} {int : Text → ℤ} {h : Host} {entries : List Entry}

/-- The block does not fail on an undefined attribute, the host keeps the value of every other
kernel parameter, and a new sysctl_conf has one value for vm.nr_hugepages. -/
structure OnlyHugepages (c : Variables) (int : Text → ℤ) (h : Host) : Prop where
  defined : c.hugePages int h ≠ .error .undefined
  others : ∀ conf, c.hugePages int h = .ok conf → ∀ parameter ≠ nrHugepages,
    applied conf h.groupNames parameter = applied c.sysctlConf h.groupNames parameter
  hugepages : ∀ conf, c.hugePages int h = .ok conf → conf ≠ c.sysctlConf →
    ∃ e, settingsFor conf h.groupNames nrHugepages = [e]

/-- The list of postgres_cluster alone gives a host its values. -/
def Alone (c : Variables) (h : Host) (entries : List Entry) : Prop :=
  ∀ parameter ≠ nrHugepages, applied c.sysctlConf h.groupNames parameter =
    applied (single postgresCluster entries) h.groupNames parameter

/-- Where the block looks, postgres_cluster is listed, and all its settings have names. Where the
block changes sysctl_conf, other groups of the host list nothing else. -/
def Harmless (c : Variables) (int : Text → ℤ) (h : Host) : Prop :=
  c.Looks h → ∃ entries, c.sysctlConf postgresCluster = some entries ∧ Named entries ∧
    (c.Short int h entries → c.hugePagesAutoConf = true → c.Alone h entries)

theorem onlyHugepages_of_eq (hconf : c.hugePages int h = .ok c.sysctlConf) :
    c.OnlyHugepages int h where
  defined := by
    rw [hconf]
    exact fun he => nomatch he
  others := by
    intro conf hok parameter _
    rw [Except.ok.inj (hconf.symm.trans hok)]
  hugepages := by
    intro conf hok hne
    exact absurd (Except.ok.inj (hconf.symm.trans hok)).symm hne

theorem onlyHugepages_of_insufficient (hstop : c.hugePages int h = .error .insufficient) :
    c.OnlyHugepages int h where
  defined := by
    rw [hstop]
    exact fun he => nomatch he
  others := fun _ hok => nomatch hstop.symm.trans hok
  hugepages := fun _ hok => nomatch hstop.symm.trans hok

/-- A changed sysctl_conf keeps the others exactly when the list alone gives their values. -/
theorem onlyHugepages_of_short (hl : c.Looks h) (hnamed : Named entries)
    (hconf : c.hugePages int h = .ok (single postgresCluster
      (withSetting nrHugepages (.number (c.hugePagesRequired h)) entries))) :
    c.OnlyHugepages int h ↔ c.Alone h entries := by
  have hsame : ∀ parameter ≠ nrHugepages, applied (single postgresCluster
      (withSetting nrHugepages (.number (c.hugePagesRequired h)) entries)) h.groupNames parameter =
        applied (single postgresCluster entries) h.groupNames parameter := by
    intro parameter hne
    rw [applied, applied, settingsFor_withSetting_other h.nodup hl.1.1 hne]
  constructor
  · intro ho parameter hne
    rw [← hsame parameter hne]
    exact (ho.others _ hconf parameter hne).symm
  · intro halone
    refine ⟨?_, fun conf hok parameter hne => ?_, fun conf hok _ => ?_⟩
    · rw [hconf]
      exact fun he => nomatch he
    · rw [← Except.ok.inj (hconf.symm.trans hok), hsame parameter hne, halone parameter hne]
    · rw [← Except.ok.inj (hconf.symm.trans hok)]
      exact ⟨_, settingsFor_withSetting_self h.nodup hl.1.1 hnamed⟩

theorem not_onlyHugepages (hstop : c.hugePages int h = .error .undefined) :
    ¬ c.OnlyHugepages int h :=
  fun ho => ho.defined hstop

/-- Where the block does not look, it changes nothing or stops. -/
theorem onlyHugepages_of_not_looks (hl : ¬ c.Looks h) : c.OnlyHugepages int h := by
  by_cases hset : c.sysctlSet = true
  · exact onlyHugepages_of_eq (hugePages_of_not_run fun hrun => hl ⟨hrun, hset⟩)
  · have hresult : c.hugePages int h = .ok c.sysctlConf ∨
        c.hugePages int h = .error .insufficient :=
      hugePages_of_not_set (Bool.not_eq_true _ ▸ hset)
    rcases hresult with heq | hstop
    · exact onlyHugepages_of_eq heq
    · exact onlyHugepages_of_insufficient hstop

theorem harmless_of_listed (hl : c.Looks h) (hconf : c.sysctlConf postgresCluster = some entries) :
    c.Harmless int h ↔ Named entries ∧
      (c.Short int h entries → c.hugePagesAutoConf = true → c.Alone h entries) := by
  rw [Harmless, hconf]
  constructor
  · intro hh
    obtain ⟨es, hes, hrest⟩ := hh hl
    rw [Option.some_inj.mp hes]
    exact hrest
  · exact fun hh _ => ⟨entries, rfl, hh⟩

/-- The variables of a cluster with the given size and settings. -/
def sized (sharedBuffers : String) (conf : Conf) : Variables where
  localPostgresqlParameters := []
  postgresqlParameters := [⟨"shared_buffers".toList, sharedBuffers.toList⟩]
  minSharedBuffersGb := none
  additionalHugePagesGb := none
  sysctlSet := true
  hugePagesAutoConf := true
  sysctlConf := conf

def decimalInt (t : Text) : ℤ := number t

def swappiness (key : Text → Key) : List Entry := [⟨key "vm.swappiness".toList, .text ['1']⟩]

/-- A host of the cluster that balances too, with pages of 2 MB. -/
def balancer (total : ℕ) : Host where
  groupNames := ["balancers".toList, postgresCluster]
  hugePageSize := 2048
  hugePagesTotal := total
  nodup := by
    decide +kernel

def forwarding : List Entry := [⟨.name "net.ipv4.ip_forward".toList, .text ['1']⟩]

def forBalancers : Conf := fun group =>
  if group = "balancers".toList then some forwarding
  else single postgresCluster (swappiness .name) group

end Variables

end HugePages
