import Autobase.ConsoleFormInventory

/-! # The etcd group of a deployment

The etcd play of a deployment runs on the group `etcd_cluster`. The form makes the group for a
new cluster only, and that a new cluster is wanted is set in expert mode only, by the user or by
the values the form opens with. -/
namespace ConsoleDcsGroup

open ConsoleClusterForm ConsoleFormExtraVars ConsoleFormInventory JsonText ObjectLiterals

def etcdGroup : String := "etcd_cluster"

structure HasEtcdGroup (inventory : Json) (rows : List DatabaseServer) : Prop where
  present : (inventoryGroup etcdGroup inventory).isSome
  hosts : ∀ a, a ∈ keys (hostsIn etcdGroup inventory) ↔ a ∈ rows.map address

/-- The inventory that is made outside expert mode has the group. -/
def EtcdDeployed (values : ClusterFormValues) : Prop :=
  ∃ inventory, inventoryJson false values = some inventory ∧
    HasEtcdGroup inventory (values.databaseServers.getD [])

/-! ## The play -/

/-- `not dcs_exists | default(false) | bool and dcs_type | default('etcd') == "etcd"` -/
def importsEtcd (extraVars : Json) : Bool :=
  !truthy (member "dcs_exists" extraVars) &&
    match member "dcs_type" extraVars with
    | none => true
    | some (.str type) => type == "etcd"
    | some _ => false

def etcdPlayHosts (extraVars inventory : Json) : List String :=
  if importsEtcd extraVars then keys (hostsIn etcdGroup inventory) else []

/-! ## The group -/

variable {expert : Bool} {values : ClusterFormValues} {inventory : Json}

theorem inventoryGroup_etcd (h : inventoryJson expert values = some inventory) :
    ∃ dcs, constructDcsEnvs expert values = some dcs ∧
      inventoryGroup etcdGroup inventory = (dcs.reverse.lookup etcdGroup).join := by
  obtain ⟨others, first, rest, hm⟩ := made h
  obtain ⟨dcs, hd, hlookup⟩ := hm.dcs
  obtain ⟨servers, hs, rfl⟩ := hm.inventory
  refine ⟨dcs, hd, ?_⟩
  rw [serverGroups_eq hm.rows] at hs
  cases hs
  rw [inventoryGroup_record, List.reverse_append, List.lookup_append, hlookup _ (by decide)]
  cases rest <;> rfl

theorem constructDcsEnvs_plain : constructDcsEnvs false values =
    if values.isDeployNewCluster then
      (configureHosts values none false true).map fun hosts => dcsGroups hosts []
    else some [] := by
  rw [constructDcsEnvs]
  rfl

theorem etcdGroup_absent (hnew : values.isDeployNewCluster = false)
    (h : inventoryJson false values = some inventory) :
    inventoryGroup etcdGroup inventory = none := by
  obtain ⟨dcs, hd, hg⟩ := inventoryGroup_etcd h
  rw [constructDcsEnvs_plain, hnew] at hd
  cases hd
  exact hg

theorem hasEtcdGroup_of_new (hnew : values.isDeployNewCluster = true)
    (h : inventoryJson false values = some inventory) :
    HasEtcdGroup inventory (values.databaseServers.getD []) := by
  obtain ⟨dcs, hd, hg⟩ := inventoryGroup_etcd h
  rw [constructDcsEnvs_plain, hnew, if_pos rfl] at hd
  obtain ⟨hosts, hh, rfl⟩ := Option.map_eq_some_iff.mp hd
  obtain ⟨rows, hrows, rfl⟩ := Option.map_eq_some_iff.mp hh
  have hgroup : inventoryGroup etcdGroup inventory = group _ := hg
  constructor
  · rw [hgroup]
    rfl
  · intro a
    rw [hostsIn, hgroup, hrows, Option.getD_some]
    change a ∈ keys (object _) ↔ _
    rw [mem_keys_object, keys, List.map_map]
    rfl

theorem etcdDeployed_iff (values : ClusterFormValues) : EtcdDeployed values ↔
    values.isDeployNewCluster = true ∧ values.databaseServers.getD [] ≠ [] := by
  constructor
  · rintro ⟨inventory, hi, hg⟩
    have hb := inventoryJson_isSome.mp (Option.isSome_iff_exists.mpr ⟨inventory, hi⟩)
    refine ⟨Bool.not_eq_false _ ▸ fun hnew => ?_, hb.servers⟩
    have hpresent := hg.present
    rw [etcdGroup_absent hnew hi] at hpresent
    cases hpresent
  · rintro ⟨hnew, hrows⟩
    have hb : Buildable false values :=
      ⟨hrows, fun h => by simp [readsBalancerRows] at h, fun h => by simp [readsDcsRows] at h⟩
    obtain ⟨inventory, hi⟩ := Option.isSome_iff_exists.mp (inventoryJson_isSome.mpr hb)
    exact ⟨inventory, hi, hasEtcdGroup_of_new hnew hi⟩

theorem filledIn_plain (loaded : Bool) (edits : List Edit) :
    (filledIn loaded false edits).isDeployNewCluster = loaded := by
  rw [filledIn_dcs]
  cases loaded <;> rfl

/-- A form that is filled in outside expert mode has the group only when the page was loaded in
expert mode. -/
theorem etcdDeployed_filledIn_iff (loaded : Bool) (edits : List Edit) :
    EtcdDeployed (filledIn loaded false edits) ↔
      loaded = true ∧ (filledIn loaded false edits).databaseServers.getD [] ≠ [] := by
  rw [etcdDeployed_iff, filledIn_plain]

def oneMachine : List Edit :=
  [.loaded (some ⟨some "aws"⟩) none none (some 17) (some 1) "postgres-cluster-01" none,
    .provider ⟨some "local"⟩ none none none,
    .databaseServers ⟨false, some [⟨some "pg1", some "10.0.0.1", some "", none⟩]⟩,
    .authentication { authenticationMethod := some "ssh_key", sshPrivateKey := some "key" }]

/-- Expert mode is switched off after the page was loaded. -/
theorem etcdDeployed_switched_off :
    acceptsLocal dottedQuad (filledIn true false oneMachine) = true ∧
      EtcdDeployed (filledIn true false oneMachine) :=
  ⟨by decide +kernel, (etcdDeployed_filledIn_iff true oneMachine).mpr ⟨rfl, List.cons_ne_nil _ _⟩⟩

/-- Validation accepts a form that deploys no etcd. -/
theorem accepted_without_etcd : ¬ ∀ (loaded : Bool) (edits : List Edit),
    acceptsLocal dottedQuad (filledIn loaded false edits) = true →
      EtcdDeployed (filledIn loaded false edits) := by
  intro h
  have hnew := ((etcdDeployed_iff _).mp (h false oneMachine (by decide +kernel))).1
  rw [filledIn_plain] at hnew
  cases hnew

/-! ## The deployment -/

def dcsNames : List String := ["dcs_exists", "dcs_type"]

theorem avoids_localExtraVars (secretId : Option ℕ) :
    Avoids dcsNames (getLocalMachineExtraVars false values secretId) := by
  refine .append ?_ (.append (.ite ?_ avoids_nil) (.append (.ite ?_ avoids_nil)
    (.append (.ite ?_ avoids_nil) (.append (.ite ?_ avoids_nil) avoids_nil))))
  · exact avoids_of_keys (by simp [getCommonExtraVars, dcsNames])
  · exact avoids_of_keys (by simp [dcsNames])
  · exact avoids_of_keys (by simp [setTrue, dcsNames])
  · exact avoids_of_keys (by simp [setTrue, dcsNames])
  · exact avoids_of_keys (by simp [dcsNames])

/-- The extra vars of a request say nothing about the store, so the play is imported. -/
theorem importsEtcd_plain {secretId : Option ℕ} {extraVars : Json}
    (h : requestExtraVars false values secretId = some extraVars) :
    importsEtcd extraVars = true := by
  obtain ⟨base, hb, rfl⟩ := Option.map_eq_some_iff.mp h
  cases hb
  have hnone : ∀ name ∈ dcsNames, member name (record (baseExtraVars values ++
      getLocalMachineExtraVars false values secretId)) = none := by
    intro name hname
    have hbase : Avoids dcsNames (baseExtraVars values) :=
      avoids_of_keys (by simp [baseExtraVars, dcsNames])
    rw [member_record, (hbase.append (avoids_localExtraVars secretId)).lookup hname]
    rfl
  rw [importsEtcd, hnone "dcs_exists" (by decide), hnone "dcs_type" (by decide)]
  rfl

/-- The play is imported, and there is no host to run it on. -/
theorem etcd_play_without_hosts {edits : List Edit} {secretId : Option ℕ} {extraVars : Json}
    (hv : requestExtraVars false (filledIn false false edits) secretId = some extraVars)
    (hi : inventoryJson false (filledIn false false edits) = some inventory) :
    importsEtcd extraVars = true ∧ etcdPlayHosts extraVars inventory = [] := by
  refine ⟨importsEtcd_plain hv, ?_⟩
  rw [etcdPlayHosts, importsEtcd_plain hv, if_pos rfl, hostsIn,
    etcdGroup_absent (filledIn_plain false edits) hi]
  rfl

end ConsoleDcsGroup
