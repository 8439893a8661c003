import Autobase.ConsolePostCluster

/-! # Failures of POST /clusters

After the cluster row is written an error may leave it behind. The deployment branch repairs
the status, the import branch does not. -/
namespace ConsolePostClusterFailure

open ConsoleSchema ConsoleStatements ConsolePostCluster

/-- An error after the row was written leaves no row or a failed one. -/
def FailureConsistent (a : Answer) : Prop :=
  a.response.isError = true → ∀ id, a.created = some id →
    storedClusterStatus id a.db = none ∨ storedClusterStatus id a.db = some clusterStatusFailed

/-- The address a host is stored under, if its insert is made and its values fit. -/
def hostAddress (C : Circumstances) (id : ℤ) : Host → Option Inet
  | (g, ip, .obj m) =>
    if C.fails (.createServer g ip) then none else storableAddress C.pg (hostReq id ip m)
  | _ => none

def hasMap : Host → Bool
  | (_, _, .obj _) => true
  | _ => false

/-- Every host with a map can be stored, under an address of its own. -/
structure HostsFit (C : Circumstances) (id : ℤ) (hosts : List Host) : Prop where
  storable : ∀ h ∈ hosts, hasMap h = true → (hostAddress C id h).isSome
  distinct : (hosts.filterMap (hostAddress C id)).Nodup

/-- The hosts in the order of the inventory. -/
def listedHosts (inv : InventoryJson) : List Host :=
  inv.master.map (fun h => (.master, h.1, h.2)) ++ inv.replica.map fun h => (.replica, h.1, h.2)

def inventoryOf (C : Circumstances) (b : Body) (d : Db) : Option InventoryJson :=
  match secretOf C b d with
  | .error _ => none
  | .ok secret => (prepare C b secret (getProxySetting C d)).inventory.map Prod.snd

/-- Docker starts the container and the operation can be stored. -/
structure Deploys (C : Circumstances) (b : Body) (id : ℤ) : Prop where
  managed : C.fails .manageCluster = false
  recorded : C.fails .createOperation = false
  code : ∃ code, C.docker = some code ∧ code.length ≤ 80 ∧
    (textIn code && textIn operationTypeDeploy && C.pg.uuidIn C.cid) = true

/-- An import stores all hosts; a deployment starts, or its status can be repaired. -/
def FailureSafe (C : Circumstances) (b : Body) (d : Db) : Prop :=
  if b.existingCluster then
    ∀ inv, inventoryOf C b d = some inv → HostsFit C d.nextClusterID (listedHosts inv)
  else Deploys C b d.nextClusterID ∨ C.fails .repairStatus = false

variable {C : Circumstances} {b : Body} {d : Db} {id : ℤ}

/-! ## The inserts of an import -/

theorem hostsFit_perm {hs hs' : List Host} (h : hs.Perm hs') :
    HostsFit C id hs ↔ HostsFit C id hs' := by
  constructor
  · rintro ⟨hstorable, hdistinct⟩
    exact ⟨fun x hx => hstorable x (h.mem_iff.mpr hx),
      (h.filterMap _).nodup_iff.mp hdistinct⟩
  · rintro ⟨hstorable, hdistinct⟩
    exact ⟨fun x hx => hstorable x (h.mem_iff.mp hx),
      (h.filterMap _).nodup_iff.mpr hdistinct⟩

theorem hostsOf_perm (C : Circumstances) (inv : InventoryJson) :
    (hostsOf C inv).Perm (listedHosts inv) :=
  ((C.iterate.order_perm inv.master).map _).append ((C.iterate.order_perm inv.replica).map _)

/-- A host that is passed over adds no condition. -/
theorem hostsFit_skip {h : Host} {hs : List Host} (hm : hasMap h = false) :
    HostsFit C id (h :: hs) ↔ HostsFit C id hs := by
  have hnone : hostAddress C id h = none := by
    obtain ⟨g, ip, v⟩ := h
    cases v <;> first | rfl | cases hm
  constructor
  · rintro ⟨hstorable, hdistinct⟩
    refine ⟨fun x hx => hstorable x (List.mem_cons_of_mem _ hx), ?_⟩
    rwa [List.filterMap_cons_none hnone] at hdistinct
  · rintro ⟨hstorable, hdistinct⟩
    refine ⟨?_, by rwa [List.filterMap_cons_none hnone]⟩
    intro x hx hx'
    rcases List.mem_cons.mp hx with rfl | hx
    · simp [hm] at hx'
    · exact hstorable x hx hx'

theorem hostsFit_cons {h : Host} {hs : List Host} {ip : Inet} (hm : hasMap h = true)
    (ha : hostAddress C id h = some ip) :
    HostsFit C id (h :: hs) ↔ HostsFit C id hs ∧ ip ∉ hs.filterMap (hostAddress C id) := by
  constructor
  · rintro ⟨hstorable, hdistinct⟩
    rw [List.filterMap_cons_some ha, List.nodup_cons] at hdistinct
    exact ⟨⟨fun x hx => hstorable x (List.mem_cons_of_mem _ hx), hdistinct.2⟩, hdistinct.1⟩
  · rintro ⟨⟨hstorable, hdistinct⟩, hnew⟩
    refine ⟨?_, by rw [List.filterMap_cons_some ha]; exact List.nodup_cons.mpr ⟨hnew, hdistinct⟩⟩
    intro x hx hx'
    rcases List.mem_cons.mp hx with rfl | hx
    · rw [ha]
      rfl
    · exact hstorable x hx hx'

/-- One insert: refused, or a row under the address of the host. -/
theorem insertHost_cases (g : Group) (ip : String) (m : List (String × JsonText.Json))
    (hosts : List Host) (hid : id ∈ d.clusters.map Cluster.clusterID) :
    ((insertHosts C id ((g, ip, .obj m) :: hosts) d).2 ≠ none ∧
        (insertHosts C id ((g, ip, .obj m) :: hosts) d).1 = d ∧
        ∀ a, hostAddress C id (g, ip, .obj m) = some a → (id, a) ∈ d.servers.map Server.key) ∨
      ∃ a d', hostAddress C id (g, ip, .obj m) = some a ∧ (id, a) ∉ d.servers.map Server.key ∧
        insertHosts C id ((g, ip, .obj m) :: hosts) d = insertHosts C id hosts d' ∧
        d'.servers.map Server.key = d.servers.map Server.key ++ [(id, a)] ∧
        d'.clusters.map Cluster.clusterID = d.clusters.map Cluster.clusterID ∧
        storedClusterStatus id d' = storedClusterStatus id d := by
  simp only [insertHosts, hostAddress]
  by_cases hf : C.fails (.createServer g ip) = true
  · exact Or.inl (by simp [hf])
  · simp only [hf, Bool.false_eq_true, if_false]
    cases hcreate : createServer C.pg (hostReq id ip m) d with
    | none =>
      refine Or.inl ⟨by simp, rfl, ?_⟩
      intro a ha
      by_contra hnew
      have hsome := createServer_isSome.mpr ⟨a, ha, hid, hnew⟩
      rw [hcreate] at hsome
      cases hsome
    | some p =>
      obtain ⟨s, d'⟩ := p
      obtain ⟨a, ha, -, ht⟩ := createServer_eq_some.mp hcreate
      have hsome : (createServer C.pg (hostReq id ip m) d).isSome := by
        rw [hcreate]
        rfl
      obtain ⟨a', ha', -, hnew⟩ := createServer_isSome.mp hsome
      obtain rfl := Option.some.inj (ha.symm.trans ha')
      refine Or.inr ⟨a, d', ha, hnew, rfl, ?_, ?_, storedClusterStatus_createServer hcreate id⟩
      · have hrows := congrArg Tables.servers ht
        simp only [updateServerCount] at hrows
        rw [hrows, List.map_append]
        rfl
      · exact (keepsClusters_of_updateWhere (keepsKeys_serverCount _)
          (congrArg Tables.clusters ht)).ids

theorem insertHosts_spec (hosts : List Host) {d : Db}
    (hid : id ∈ d.clusters.map Cluster.clusterID) :
    ((insertHosts C id hosts d).2 = none ↔
      HostsFit C id hosts ∧ ∀ ip ∈ hosts.filterMap (hostAddress C id),
        (id, ip) ∉ d.servers.map Server.key) ∧
    storedClusterStatus id (insertHosts C id hosts d).1 = storedClusterStatus id d := by
  induction hosts generalizing d with
  | nil =>
    refine ⟨iff_of_true rfl ⟨⟨?_, List.nodup_nil⟩, ?_⟩, rfl⟩
    · intro h hh
      cases hh
    · intro ip hip
      cases hip
  | cons h hosts ih =>
    obtain ⟨g, ip, v⟩ := h
    by_cases hm : hasMap (g, ip, v) = true
    · obtain ⟨m, rfl⟩ : ∃ m, v = .obj m := by
        cases v with
        | obj m => exact ⟨m, rfl⟩
        | _ => cases hm
      rcases insertHost_cases (C := C) g ip m hosts hid with
        ⟨hstop, hd, hold⟩ | ⟨a, d', ha, hnew, heq, hkeys, hids, hstatus⟩
      · refine ⟨iff_of_false hstop ?_, by rw [hd]⟩
        rintro ⟨hfit, hfree⟩
        obtain ⟨a, ha⟩ := Option.isSome_iff_exists.mp (hfit.storable _ List.mem_cons_self hm)
        refine hfree a ?_ (hold a ha)
        rw [List.filterMap_cons_some ha]
        exact List.mem_cons_self
      · obtain ⟨hiff, hs⟩ := ih (hids ▸ hid)
        rw [heq, hs, hstatus, hiff, hostsFit_cons hm ha, List.filterMap_cons_some ha, hkeys]
        refine ⟨?_, rfl⟩
        constructor
        · rintro ⟨hfit, hfree⟩
          refine ⟨⟨hfit, fun hmem => hfree a hmem (by simp)⟩, ?_⟩
          intro x hx hk
          rcases List.mem_cons.mp hx with rfl | hx
          · exact hnew hk
          · exact hfree x hx (List.mem_append_left _ hk)
        · rintro ⟨⟨hfit, hne⟩, hfree⟩
          refine ⟨hfit, fun x hx hk => ?_⟩
          rcases List.mem_append.mp hk with hk | hk
          · exact hfree x (List.mem_cons_of_mem _ hx) hk
          · obtain rfl := (Prod.mk.inj (List.mem_singleton.mp hk)).2
            exact hne hx
    · have hskip : insertHosts C id ((g, ip, v) :: hosts) d = insertHosts C id hosts d := by
        cases v with
        | obj m => exact absurd rfl hm
        | _ => rfl
      have hnone : hostAddress C id (g, ip, v) = none := by
        cases v with
        | obj m => exact absurd rfl hm
        | _ => rfl
      rw [hskip, hostsFit_skip (by simpa using hm), List.filterMap_cons_none hnone]
      exact ih hid

/-! ## The created row -/

/-- What the handler did when the row was written. -/
structure Written (C : Circumstances) (b : Body) (d : Db) (p : Prepared) (d' : Db) : Prop where
  secret : ∃ secret, secretOf C b d = .ok secret ∧ p = prepare C b secret (getProxySetting C d)
  tables : d'.toTables = { d.toTables with
    clusters := d.clusters ++ [(createReq C b p).row d.nextClusterID C.now]
    nextClusterID := d.nextClusterID + 1 }
  answer : handle C b d = if b.existingCluster then importCluster C p d.nextClusterID d'
    else startDeployment C b p d.nextClusterID d'

theorem created_written (h : (handle C b d).created = some id) :
    ∃ p d', Written C b d p d' := by
  rw [handle] at h
  split at h
  · cases h
  · next hold =>
    cases hs : secretOf C b d with
    | error e => simp [hs, refuse] at h
    | ok secret =>
      simp only [hs, writeCluster] at h
      by_cases hf : C.fails .createCluster = true
      · simp [hf, refuse] at h
      · simp only [hf, Bool.false_eq_true, if_false] at h
        cases hc : createCluster C.pg (createReq C b (prepare C b secret (getProxySetting C d)))
            C.now d with
        | none => simp [hc, refuse] at h
        | some q =>
          obtain ⟨c, d'⟩ := q
          obtain ⟨-, rfl, ht⟩ := createCluster_eq_some.mp hc
          refine ⟨_, d', ⟨secret, hs, rfl⟩, ht, ?_⟩
          rw [handle]
          rw [if_neg hold]
          simp only [hs, writeCluster, hf, Bool.false_eq_true, if_false, hc]
          rfl

theorem Written.mem {p : Prepared} {d' : Db} (h : Written C b d p d') :
    (createReq C b p).row d.nextClusterID C.now ∈ d'.clusters := by
  rw [h.tables]
  exact List.mem_append_right _ (List.mem_singleton.mpr rfl)

theorem Written.row {p : Prepared} {d' : Db} (h : Written C b d p d') :
    d.nextClusterID ∈ d'.clusters.map Cluster.clusterID ∧
      storedClusterStatus d.nextClusterID d' = some (createReq C b p).status ∧
      b.projectID ∈ d'.projects.map Project.projectID ∧
      ∀ ip, (d.nextClusterID, ip) ∉ d'.servers.map Server.key := by
  have hm := h.mem
  refine ⟨List.mem_map.mpr ⟨_, hm, rfl⟩, ?_, d'.ok.clusters_project_fkey _ hm, ?_⟩
  · have hg := getCluster_of_mem hm
    simp only [storedClusterStatus]
    exact congrArg (Option.map Cluster.clusterStatus) hg
  · intro ip hk
    -- no server can belong to a number that was not issued yet
    obtain ⟨s, hs, he⟩ := List.mem_map.mp hk
    have hsd : s ∈ d.servers := by
      rw [h.tables] at hs
      exact hs
    obtain ⟨c, hc, hid⟩ := List.mem_map.mp (d.ok.servers_cluster_fkey s hsd)
    have hlt := d.ok.clusters_issued c hc
    rw [hid, show s.clusterID = d.nextClusterID from congrArg Prod.fst he] at hlt
    exact absurd hlt (Int.lt_irrefl _)

theorem Written.inventory {p : Prepared} {d' : Db} (h : Written C b d p d') :
    inventoryOf C b d = p.inventory.map Prod.snd := by
  obtain ⟨secret, hs, rfl⟩ := h.secret
  simp only [inventoryOf, hs]

/-! ## The two branches -/

theorem import_consistent {p : Prepared} {d' : Db} (hb : b.existingCluster = true)
    (h : Written C b d p d') :
    FailureConsistent (importCluster C p d.nextClusterID d') ↔
      ∀ inv, inventoryOf C b d = some inv → HostsFit C d.nextClusterID (listedHosts inv) := by
  obtain ⟨hid, hstatus, -, hfree⟩ := h.row
  obtain ⟨hiff, hs⟩ := insertHosts_spec (C := C)
    ((p.inventory.map fun i => hostsOf C i.2).getD []) hid
  have hstored : storedClusterStatus d.nextClusterID (importCluster C p d.nextClusterID d').db =
      some "ready" := by
    have hready : (createReq C b p).status = "ready" := by simp [createReq, hb]
    rw [← hready, ← hstatus, ← hs]
    unfold importCluster
    simp only
    split <;> next heq => rw [heq]
  -- the row stays ready, so the branch is consistent when no insert fails
  have hbranch : FailureConsistent (importCluster C p d.nextClusterID d') ↔
      (insertHosts C d.nextClusterID ((p.inventory.map fun i => hostsOf C i.2).getD []) d').2 =
        none := by
    constructor
    · intro hc
      by_contra hne
      have herror : (importCluster C p d.nextClusterID d').response.isError = true ∧
          (importCluster C p d.nextClusterID d').created = some d.nextClusterID := by
        unfold importCluster
        simp only
        split
        · next heq => exact absurd (by rw [heq]) hne
        · exact ⟨rfl, rfl⟩
      rcases hc herror.1 _ herror.2 with hf | hf
      · rw [hstored] at hf
        cases hf
      · rw [hstored] at hf
        exact absurd (Option.some.inj hf) (by decide)
    · intro hnone hc
      have hok : (importCluster C p d.nextClusterID d').response = .ok d.nextClusterID none := by
        unfold importCluster
        simp only
        split
        · rfl
        · next heq =>
          rw [heq] at hnone
          cases hnone
      rw [hok] at hc
      cases hc
  rw [hbranch, hiff, h.inventory]
  cases p.inventory with
  | none =>
    refine iff_of_true ⟨⟨?_, List.nodup_nil⟩, ?_⟩ (by simp)
    · intro x hx
      cases hx
    · intro x hx
      cases hx
  | some i =>
    simp only [Option.map_some, Option.getD_some, Option.some.injEq, forall_eq',
      hostsFit_perm (hostsOf_perm C i.2), hfree, not_false_eq_true, implies_true, and_true]

theorem deploys_iff {d' : Db} (hid : id ∈ d'.clusters.map Cluster.clusterID)
    (hp : b.projectID ∈ d'.projects.map Project.projectID) :
    Deploys C b id ↔ ∃ code, (if C.fails .manageCluster then none else C.docker) = some code ∧
      (if C.fails .createOperation then none
        else createOperation C.pg (deployReq C b id code) C.now d').isSome := by
  constructor
  · rintro ⟨hm, ho, code, hd, hlen, htext⟩
    refine ⟨code, by simp [hm, hd], ?_⟩
    simp only [ho, Bool.false_eq_true, if_false]
    exact (createOperation_isSome hid hp).mpr ⟨htext, hlen⟩
  · rintro ⟨code, hcode, hop⟩
    by_cases hm : C.fails .manageCluster = true
    · simp [hm] at hcode
    · by_cases ho : C.fails .createOperation = true
      · simp [ho] at hop
      · simp only [hm, ho, Bool.false_eq_true, if_false] at hcode hop
        obtain ⟨htext, hlen⟩ := (createOperation_isSome hid hp).mp hop
        exact ⟨by simpa using hm, by simpa using ho, code, hcode, hlen, htext⟩

theorem storedClusterStatus_repair {d' : Db} (hid : id ∈ d'.clusters.map Cluster.clusterID) :
    storedClusterStatus id (repairStatus C id d') =
      if C.fails .repairStatus then storedClusterStatus id d' else some clusterStatusFailed := by
  rw [repairStatus]
  cases hf : C.fails .repairStatus with
  | true => rw [attempt_refused (Or.inl rfl), if_pos rfl]
  | false => exact storedClusterStatus_updateCluster hid (by decide)

theorem deployment_consistent {p : Prepared} {d' : Db} (hb : b.existingCluster = false)
    (h : Written C b d p d') :
    FailureConsistent (startDeployment C b p d.nextClusterID d') ↔
      Deploys C b d.nextClusterID ∨ C.fails .repairStatus = false := by
  obtain ⟨hid, hstatus, hp, -⟩ := h.row
  have hdeploying : (createReq C b p).status = "deploying" := by simp [createReq, hb]
  -- an error on this branch ends with the repair
  have hfailed : ∀ {m : String} {k : Option (String × List String)},
      FailureConsistent ⟨repairStatus C d.nextClusterID d', .badRequest m, some d.nextClusterID, k⟩ ↔
        C.fails .repairStatus = false := by
    intro m k
    have hrepair := storedClusterStatus_repair (C := C) hid
    simp only [FailureConsistent, Response.isError, forall_const, Option.some.injEq,
      forall_eq', hrepair, hstatus, hdeploying]
    cases C.fails .repairStatus with
    | true => simpa using by decide
    | false => simp
  rw [deploys_iff hid hp]
  rw [startDeployment]
  cases hm : (if C.fails .manageCluster then none else C.docker) with
  | none => simp [hfailed]
  | some code =>
    simp only [Option.some.injEq, exists_eq_left']
    cases ho : (if C.fails .createOperation then none
        else createOperation C.pg (deployReq C b d.nextClusterID code) C.now d') with
    | none => simp [hfailed]
    | some q =>
      obtain ⟨o, d''⟩ := q
      simp [FailureConsistent, Response.isError]

/-- Once the row is written, an error leaves it failed exactly when the import can store all
its hosts, or the deployment starts or can be repaired. -/
theorem post_failure_consistent_iff (h : (handle C b d).created = some id) :
    FailureConsistent (handle C b d) ↔ FailureSafe C b d := by
  obtain ⟨p, d', hw⟩ := created_written h
  rw [hw.answer]
  rw [FailureSafe]
  cases hb : b.existingCluster with
  | true => simpa using import_consistent hb hw
  | false => simpa using deployment_consistent hb hw

/-- An import whose inventory lists the given host in both groups, or in one. -/
def importBody (replica : String) : Body where
  projectID := 1
  environmentID := 1
  name := "postgres-cluster-01"
  description := ""
  authInfo := none
  existingCluster := true
  extraVars := none
  envs := ["ANSIBLE_INVENTORY_JSON=\x7b\"all\": \x7b\"children\": \x7b\"master\": \x7b\"hosts\": " ++
    ("\x7b\"10.0.0.1\": \x7b\x7d\x7d\x7d, \"replica\": \x7b\"hosts\": \x7b\"" ++
      (replica ++ "\": \x7b\x7d\x7d\x7d\x7d\x7d\x7d"))]

theorem import_failure_consistent :
    FailureConsistent (handle smooth (importBody "10.0.0.2") migrated) ↔
      FailureSafe smooth (importBody "10.0.0.2") migrated := by
  have hcreated : (handle smooth (importBody "10.0.0.2") migrated).created = some 1 := by
    decide +kernel
  exact post_failure_consistent_iff hcreated

/-- One host in both groups: the second insert is refused and the cluster stays ready. -/
theorem repeated_host_left_ready :
    ¬ FailureConsistent (handle smooth (importBody "10.0.0.1") migrated) := by
  have hrun : (handle smooth (importBody "10.0.0.1") migrated).response.isError = true ∧
      (handle smooth (importBody "10.0.0.1") migrated).created = some 1 ∧
      storedClusterStatus 1 (handle smooth (importBody "10.0.0.1") migrated).db = some "ready" := by
    decide +kernel
  obtain ⟨herror, hcreated, hstatus⟩ := hrun
  intro h
  have hconsistent := h herror 1 hcreated
  rw [hstatus] at hconsistent
  exact absurd hconsistent (by decide)

end ConsolePostClusterFailure
