import Autobase.UpgradeDirectories
import Autobase.DirectoryCopies
import Mathlib.Data.List.Nodup
import Mathlib.Data.List.Perm.Subperm

/-! # The rsync cases of upgrade_secondary

The new data directory is wiped on the replicas, then one of two cases should copy it from the
primary. The cases compare the parents of both data directories with the upper directory and a
version; the first one asks for both to be versioned and the second one for neither. The first one
goes to the addresses of the replicas, and the second one to their names in the inventory. -/
namespace ReplicaSync

open DirectoryPaths DirectoryCopies

/-! ## Variables -/

/-- Digits and dots, with a digit. -/
def IsVersion (version : Text) : Prop :=
  (∀ ch ∈ version, ch.isDigit ∨ ch = '.') ∧ ∃ ch ∈ version, ch.isDigit

instance (version : Text) : Decidable (IsVersion version) :=
  @instDecidableAnd _ _ (List.decidableBAll _ _) (List.decidableBEx _ _)

theorem IsVersion.isName {version : Text} (h : IsVersion version) : IsName version := by
  obtain ⟨-, ch, hmem, hdigit⟩ := h
  refine ⟨List.ne_nil_of_mem hmem, ?_, ?_⟩
  all_goals
    rintro rfl
    simp only [List.mem_cons, List.not_mem_nil, or_false, or_self] at hmem
    subst hmem
    exact absurd hdigit (by decide)

theorem IsVersion.no_slash {version : Text} (h : IsVersion version) : '/' ∉ version := by
  intro hmem
  rcases h.1 _ hmem with hdigit | hdot
  · exact absurd hdigit (by decide)
  · exact absurd hdot (by decide)

/-- A replica has a name in the inventory and an address. -/
structure Secondary where
  inventoryHostname : Text
  bindAddress : Text

/-- The data directories are paths from the root, and the upper directory may be given. `reaches` is
where ssh leads on the primary, by an address or by a name. -/
structure Upgrade where
  config : UpgradeDirectories.Config
  upperDatadir : Option Text
  secondary : List Secondary
  reaches : Text → Option Text
  addresses : (secondary.map Secondary.bindAddress).Nodup
  reachable : ∀ s ∈ secondary, reaches s.bindAddress = some s.bindAddress
  oldAbsolute : config.pgOldDatadir.head? = some '/'
  newAbsolute : config.pgNewDatadir.head? = some '/'
  oldVersion : IsVersion config.pgOldVersion
  newVersion : IsVersion config.pgNewVersion

namespace Upgrade

variable (u : Upgrade)

abbrev pgOldDatadir : Text := u.config.pgOldDatadir

abbrev pgNewDatadir : Text := u.config.pgNewDatadir

def pgUpperDatadir : Text := u.upperDatadir.getD (dirname (dirname (stripSlash u.pgNewDatadir)))

def versioned (version : Text) : Text := u.pgUpperDatadir ++ '/' :: version

/-! ## Cases -/

def OldVersioned : Prop := dirname u.pgOldDatadir = u.versioned u.config.pgOldVersion

def NewVersioned : Prop := dirname u.pgNewDatadir = u.versioned u.config.pgNewVersion

instance : Decidable u.OldVersioned := inferInstanceAs (Decidable (_ = _))

instance : Decidable u.NewVersioned := inferInstanceAs (Decidable (_ = _))

/-- One rsync for each of the hosts. -/
structure Rsync where
  secondaryServers : List Text
  copy : Copy

def rsync1 : Rsync where
  secondaryServers := u.secondary.map Secondary.bindAddress
  copy :=
    { sources := [u.versioned u.config.pgOldVersion, u.versioned u.config.pgNewVersion]
      destination := u.pgUpperDatadir }

def rsync2 : Rsync where
  secondaryServers := u.secondary.map Secondary.inventoryHostname
  copy :=
    { sources := [u.pgOldDatadir, u.pgNewDatadir]
      destination := u.pgUpperDatadir }

/-- The cases that apply. -/
def upgradeSecondary : List Rsync :=
  (if u.OldVersioned ∧ u.NewVersioned then [u.rsync1] else []) ++
    if ¬ u.OldVersioned ∧ ¬ u.NewVersioned then [u.rsync2] else []

/-- The addresses that an rsync leads to. -/
def reached (rsync : Rsync) : List Text := rsync.secondaryServers.filterMap u.reaches

/-- Every replica is addressed once. -/
def Addresses (rsync : Rsync) : Prop :=
  ∀ s ∈ u.secondary, (u.reached rsync).count s.bindAddress = 1

/-- Exactly one case applies, and it copies the new data directory of the primary to that of each
replica. -/
def Synchronised : Prop :=
  ∃ rsync, u.upgradeSecondary = [rsync] ∧ rsync.copy.Mirrors (place u.pgNewDatadir) ∧
    u.Addresses rsync

/-- The names of the replicas in the inventory lead to the replicas. -/
def NamesLead : Prop :=
  ((u.secondary.map Secondary.inventoryHostname).filterMap u.reaches).Perm
    (u.secondary.map Secondary.bindAddress)

/-- The directories of the second case are copied to their own places, unless they stay away from
the new data directory. -/
def Landing : Prop :=
  (∃ s ∈ u.rsync2.copy.sources, u.rsync2.copy.InPlace s ∧ place s <+: place u.pgNewDatadir) ∧
    ∀ s ∈ u.rsync2.copy.sources, u.rsync2.copy.InPlace s ∨
      ¬ u.rsync2.copy.Meets s (place u.pgNewDatadir)

instance : Decidable u.Landing := inferInstanceAs (Decidable (_ ∧ _))

variable {u : Upgrade}

/-! ## The versioned case -/

theorem versioned_inPlace {version : Text} (h : IsVersion version) :
    u.rsync1.copy.InPlace (u.versioned version) :=
  Copy.inPlace_child h.no_slash h.isName

theorem place_versioned {version : Text} (h : IsVersion version) :
    place (u.versioned version) = place u.pgUpperDatadir ++ [version] :=
  place_child _ h.no_slash h.isName

theorem slash_mem_of_absolute {path : Text} (h : path.head? = some '/') : '/' ∈ path :=
  List.mem_of_head? h

/-- The versioned directories are copied whole, so the case only misses a new data directory that
steps out of its version. -/
theorem rsync1_mirrors_iff (h : u.NewVersioned) :
    u.rsync1.copy.Mirrors (place u.pgNewDatadir) ↔ basename u.pgNewDatadir ≠ ['.', '.'] := by
  have hold := versioned_inPlace (u := u) u.oldVersion
  have hnew := versioned_inPlace (u := u) u.newVersion
  have hplace : place u.pgNewDatadir =
      enter (place u.pgUpperDatadir ++ [u.config.pgNewVersion]) (basename u.pgNewDatadir) := by
    rw [place_eq_enter (slash_mem_of_absolute u.newAbsolute), h, place_versioned u.newVersion]
  rw [Copy.mirrors_iff]
  constructor
  · rintro ⟨⟨s, hs, -, hprefix⟩, -⟩ hdots
    have hlength : (place s).length = (place u.pgUpperDatadir).length + 1 := by
      rcases List.mem_pair.mp hs with rfl | rfl
      · rw [place_versioned u.oldVersion, List.length_append, List.length_singleton]
      · rw [place_versioned u.newVersion, List.length_append, List.length_singleton]
    have hle := hprefix.length_le
    rw [hplace, hdots, enter, if_neg (by decide), if_pos rfl, List.dropLast_concat] at hle
    omega
  · intro hdots
    refine ⟨⟨_, List.mem_pair.mpr (Or.inr rfl), hnew, ?_⟩, ?_⟩
    · rw [hplace, place_versioned u.newVersion, enter, if_neg hdots]
      split
      · exact List.prefix_refl _
      · exact List.prefix_append _ _
    · intro s hs
      rcases List.mem_pair.mp hs with rfl | rfl
      · exact Or.inl hold
      · exact Or.inl hnew

/-! ## Addresses and names -/

/-- The first case goes to the addresses. -/
theorem addresses_rsync1 : u.Addresses u.rsync1 := by
  have hself : u.reached u.rsync1 = u.secondary.map Secondary.bindAddress := by
    rw [reached, rsync1, List.filterMap_map]
    have hsome : ∀ s ∈ u.secondary, (u.reaches ∘ Secondary.bindAddress) s =
        (some ∘ Secondary.bindAddress) s := fun s hs => u.reachable s hs
    rw [List.filterMap_congr hsome, List.filterMap_eq_map]
  intro s hs
  rw [hself]
  exact List.count_eq_one_of_mem u.addresses (List.mem_map_of_mem hs)

/-- The second case addresses every replica once exactly when the names lead to the replicas. -/
theorem addresses_rsync2_iff : u.Addresses u.rsync2 ↔ u.NamesLead := by
  have hreached : u.reached u.rsync2 =
      (u.secondary.map Secondary.inventoryHostname).filterMap u.reaches := rfl
  rw [Addresses, NamesLead, hreached]
  constructor
  · intro hcount
    have hsubset : u.secondary.map Secondary.bindAddress ⊆
        (u.secondary.map Secondary.inventoryHostname).filterMap u.reaches := by
      intro address haddress
      obtain ⟨s, hs, rfl⟩ := List.mem_map.mp haddress
      exact List.count_pos_iff.mp (hcount s hs ▸ Nat.one_pos)
    have hlength : ((u.secondary.map Secondary.inventoryHostname).filterMap u.reaches).length ≤
        (u.secondary.map Secondary.bindAddress).length := by
      have hle := List.length_filterMap_le u.reaches (u.secondary.map Secondary.inventoryHostname)
      rwa [List.length_map] at hle ⊢
    exact ((u.addresses.subperm hsubset).perm_of_length_le hlength).symm
  · intro hperm s hs
    rw [hperm.count_eq]
    exact List.count_eq_one_of_mem u.addresses (List.mem_map_of_mem hs)

/-! ## Both cases -/

theorem synchronised_of_case {rsync : Rsync} (hcases : u.upgradeSecondary = [rsync]) :
    u.Synchronised ↔ rsync.copy.Mirrors (place u.pgNewDatadir) ∧ u.Addresses rsync := by
  rw [Synchronised, hcases]
  refine ⟨?_, fun h => ⟨_, rfl, h⟩⟩
  rintro ⟨rsync', heq, h⟩
  rw [List.singleton_inj.mp heq]
  exact h

theorem synchronised_versioned (ho : u.OldVersioned) (hn : u.NewVersioned) :
    u.Synchronised ↔ basename u.pgNewDatadir ≠ ['.', '.'] := by
  have hcases : u.upgradeSecondary = [u.rsync1] := by
    rw [upgradeSecondary, if_pos ⟨ho, hn⟩, if_neg fun h => h.1 ho, List.append_nil]
  rw [synchronised_of_case hcases, rsync1_mirrors_iff hn]
  exact and_iff_left addresses_rsync1

theorem synchronised_nonVersioned (ho : ¬ u.OldVersioned) (hn : ¬ u.NewVersioned) :
    u.Synchronised ↔ u.Landing ∧ u.NamesLead := by
  have hcases : u.upgradeSecondary = [u.rsync2] := by
    rw [upgradeSecondary, if_neg fun h => ho h.1, if_pos ⟨ho, hn⟩, List.nil_append]
  rw [synchronised_of_case hcases, Landing, ← Copy.mirrors_iff, addresses_rsync2_iff]

/-- When one directory is versioned and the other one is not, no case applies. -/
theorem upgradeSecondary_mixed (h : ¬ (u.OldVersioned ↔ u.NewVersioned)) :
    u.upgradeSecondary = [] := by
  rw [upgradeSecondary, if_neg fun hc => h (iff_of_true hc.1 hc.2),
    if_neg fun hc => h (iff_of_false hc.1 hc.2)]
  rfl

/-- The cases never apply together. -/
theorem upgradeSecondary_length_le : u.upgradeSecondary.length ≤ 1 := by
  rw [upgradeSecondary]
  split
  · next hboth =>
    rw [if_neg fun h => h.1 hboth.1]
    exact le_refl _
  · split
    · exact le_refl _
    · exact Nat.zero_le _

/-- Every replica gets the new data directory exactly when both directories are versioned, and the
new one does not step out of its version, or neither is, they lie in the upper directory and the
names of the replicas lead to them. -/
theorem synchronised_iff : u.Synchronised ↔
    (u.OldVersioned ∧ u.NewVersioned ∧ basename u.pgNewDatadir ≠ ['.', '.']) ∨
      (¬ u.OldVersioned ∧ ¬ u.NewVersioned ∧ u.Landing ∧ u.NamesLead) := by
  by_cases ho : u.OldVersioned
  · by_cases hn : u.NewVersioned
    · simp [synchronised_versioned ho hn, ho, hn]
    · have hnone := upgradeSecondary_mixed (u := u) (by simp [ho, hn])
      simp [Synchronised, hnone, hn, ho]
  · by_cases hn : u.NewVersioned
    · have hnone := upgradeSecondary_mixed (u := u) (by simp [ho, hn])
      simp [Synchronised, hnone, hn, ho]
    · simp [synchronised_nonVersioned ho hn, ho, hn]

/-! ## The default upper directory -/

theorem basename_ne_nil_of_closing {path : Text} (h : path.getLast? = some '/') :
    basename path = [] := by
  obtain ⟨p, rfl⟩ := List.getLast?_eq_some_iff.mp h
  exact basename_slash p List.not_mem_nil

/-- The default upper directory is two levels above the new data directory, and the second case
drops the level between. -/
theorem default_upper_not_inPlace (hupper : u.upperDatadir = none)
    (hline : '\n' ∉ u.pgNewDatadir) (hname : IsName (basename u.pgNewDatadir))
    (hslash : '/' ∈ dirname u.pgNewDatadir)
    (hparent : IsName (basename (dirname u.pgNewDatadir))) :
    ¬ u.rsync2.copy.InPlace u.pgNewDatadir := by
  have hopen : u.pgNewDatadir.getLast? ≠ some '/' := fun h =>
    hname.1 (basename_ne_nil_of_closing h)
  have hdefault : u.pgUpperDatadir = dirname (dirname u.pgNewDatadir) := by
    rw [pgUpperDatadir, hupper, Option.getD_none, stripSlash_eq_self hopen hline]
  have hplace : place u.pgNewDatadir = place u.pgUpperDatadir ++
      [basename (dirname u.pgNewDatadir)] ++ [basename u.pgNewDatadir] := by
    rw [place_eq_enter (slash_mem_of_absolute u.newAbsolute), enter_name _ hname,
      place_eq_enter hslash, enter_name _ hparent, hdefault]
  intro hinplace
  have hlands : place u.pgNewDatadir = place u.pgUpperDatadir ++ [basename u.pgNewDatadir] := by
    rw [hinplace, Copy.lands, carried, if_pos hname]
    rfl
  have hlength := congrArg List.length (hplace.symm.trans hlands)
  simp only [List.length_append, List.length_singleton] at hlength
  omega

/-- A cluster of 17 on Debian with data and configuration in directories of its own. -/
def directories (old new : String) : UpgradeDirectories.Config where
  postgresqlVersion := "17".toList
  pgOldVersion := "17".toList
  pgNewVersion := "18".toList
  postgresqlDataDir := old.toList
  postgresqlConfDir := "/etc/postgresql/17/main".toList
  postgresqlWalDir := []
  oldDatadir := none
  newDatadir := some new.toList
  oldConfdir := none
  newConfdir := none
  newWalDir := none

def runningSeventeen (old : String) : UpgradeDirectories.Server := ⟨"17".toList, old.toList⟩

/-- One replica, which the primary knows by its address only. -/
def byAddress (address : Text) : Option Text :=
  if address = "10.0.0.2".toList then some address else none

/-- Only the new data directory is in a directory of its version. -/
def toVersioned : Upgrade where
  config := directories "/pgdata/main" "/pgdata/18/main"
  upperDatadir := none
  secondary := [⟨"10.0.0.2".toList, "10.0.0.2".toList⟩]
  reaches := byAddress
  addresses := List.nodup_singleton _
  reachable := by
    decide +kernel
  oldAbsolute := by
    decide +kernel
  newAbsolute := by
    decide +kernel
  oldVersion := by
    decide +kernel
  newVersion := by
    decide +kernel

/-- The directories of the documented example without versions. -/
def documented : Upgrade where
  config := directories "/pgdata/main" "/pgdata/main18"
  upperDatadir := none
  secondary := [⟨"10.0.0.2".toList, "10.0.0.2".toList⟩]
  reaches := byAddress
  addresses := List.nodup_singleton _
  reachable := by
    decide +kernel
  oldAbsolute := by
    decide +kernel
  newAbsolute := by
    decide +kernel
  oldVersion := by
    decide +kernel
  newVersion := by
    decide +kernel

/-- The same with the upper directory set, and with a name for the replica in the inventory. -/
def named : Upgrade :=
  { documented with
    upperDatadir := some "/pgdata".toList
    secondary := [⟨"pgnode02".toList, "10.0.0.2".toList⟩]
    addresses := List.nodup_singleton _
    reachable := by
      decide +kernel }

/-- All pass the checks. For the first one no case applies, for the second one the case that
applies copies to the root, and for the last one it does not find the replica. -/
theorem replica_left_empty :
    (UpgradeDirectories.preChecks toVersioned.config (runningSeventeen "/pgdata/main") = none ∧
      toVersioned.upgradeSecondary = []) ∧
    (UpgradeDirectories.preChecks documented.config (runningSeventeen "/pgdata/main") = none ∧
      documented.upgradeSecondary = [documented.rsync2] ∧
      documented.rsync2.copy.destination = ['/'] ∧
      ¬ documented.rsync2.copy.Mirrors (place documented.pgNewDatadir)) ∧
    (UpgradeDirectories.preChecks named.config (runningSeventeen "/pgdata/main") = none ∧
      named.Landing ∧ ¬ named.Synchronised) := by
  have ho : ¬ documented.OldVersioned := by
    decide +kernel
  have hn : ¬ documented.NewVersioned := by
    decide +kernel
  refine ⟨⟨by decide +kernel, ?_⟩, ⟨by decide +kernel, ?_, by decide +kernel, ?_⟩,
    by decide +kernel, by decide +kernel, ?_⟩
  · refine upgradeSecondary_mixed ?_
    decide +kernel
  · rw [upgradeSecondary, if_neg fun h => ho h.1, if_pos ⟨ho, hn⟩, List.nil_append]
  · rw [Copy.mirrors_iff]
    decide +kernel
  · rw [synchronised_nonVersioned (by decide +kernel) (by decide +kernel)]
    rintro ⟨-, hlead⟩
    exact absurd hlead.length_eq (by decide +kernel)

end Upgrade

end ReplicaSync
