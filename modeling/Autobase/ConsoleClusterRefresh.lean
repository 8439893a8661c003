import Autobase.ConsoleHandleCluster
import Autobase.ConsolePostCluster

/-! # Refreshing a cluster

The handler reads the cluster, lets the watcher look at it and answers with what it read before
the look, and with the server rows as they are after it. -/
namespace ConsoleClusterRefresh

open ConsoleSchema ConsoleStatements ConsoleServerCount ConsoleHandleCluster RowTables
  TransitionRuns

/-- The answer about a cluster that was read already; `none` is the bad request. -/
def getClusterInfo (w : Watch) (cl : Cluster) (d : Db) : Option ConsolePostCluster.ClusterInfo :=
  (getProject cl.projectID d).bind fun project =>
    (getEnvironment cl.environmentID d).map fun environment =>
      ConsolePostCluster.clusterToSwagger w.pg cl (w.rowOrder (getClusterServers cl.clusterID d))
        environment.environmentName project.projectName

/-- GET /clusters/{id} -/
def getClusterHandle (w : Watch) (id : ℤ) (d : Db) : Option ConsolePostCluster.ClusterInfo :=
  (getCluster id d).bind fun cl => getClusterInfo w cl d

/-- POST /clusters/{id}/refresh -/
def postClusterRefreshHandle (w : Watch) (id : ℤ) (d : Db) :
    Option ConsolePostCluster.ClusterInfo × Db :=
  match getCluster id d with
  | none => (none, d)
  | some cl =>
    let d' := handleCluster w cl d
    (getClusterInfo w cl d', d')

def firstAnswer (w : Watch) (cl : Cluster) (d : Db) : Option ClusterInfo :=
  (w.rowOrder (getClusterServers cl.clusterID d)).findSome? fun s => w.getClusterInfo s.ipAddress

/-- The status the look arrives at is the one the row has. -/
def KeepsStatus (w : Watch) (cl : Cluster) (d : Db) : Prop :=
  match firstAnswer w cl d with
  | some info => statusFor cl info = cl.clusterStatus
  | none =>
    getPatroniConnectStatus (BitVec.ofNat 32 cl.flags) = 1 →
      cl.clusterStatus = clusterStatusUnavailable

def settled (c : Cluster) : Cluster := { c with clusterStatus := "", serverCount := 0, flags := 0 }

theorem settled_handleCluster (w : Watch) (cl : Cluster) (d : Db) (id : ℤ) :
    (getCluster id (handleCluster w cl d)).map settled = (getCluster id d).map settled := by
  apply handleCluster_keeps
    (I := fun t => (getCluster id t).map settled = (getCluster id d).map settled)
  · intro t t' hrow ht
    exact (column_rowWrite (fun _ _ => rfl) hrow id).trans ht
  · intro status flags t t' c _ hupdate ht
    obtain ⟨info, hinfo, -, htables, -⟩ := updateCluster_eq_some.mp hupdate
    obtain rfl : none = info := Option.some.inj hinfo
    refine Eq.trans ?_ ht
    exact column_updateWhere (keepsKeys_apply _ none) (fun _ => rfl)
      (congrArg Tables.clusters htables) id
  · rfl

variable {w : Watch} {cl : Cluster} {d : Db}

theorem exists_settled (h : getCluster cl.clusterID d = some cl) :
    ∃ c, getCluster cl.clusterID (handleCluster w cl d) = some c ∧ settled c = settled cl := by
  have hsettled := settled_handleCluster w cl d cl.clusterID
  rw [h, Option.map_some] at hsettled
  exact Option.map_eq_some_iff.mp hsettled

theorem getClusterInfo_settled {c : Cluster} (h : settled c = settled cl) (d : Db) :
    getClusterInfo w c d =
      (getClusterInfo w cl d).map fun r => { r with status := c.clusterStatus } := by
  obtain ⟨id, project, environment, secret, name, status, description, location, connection, vars,
    inventory, count, version, created, deleted, flags⟩ := c
  obtain ⟨id', project', environment', secret', name', status', description', location',
    connection', vars', inventory', count', version', created', deleted', flags'⟩ := cl
  simp only [settled, Cluster.mk.injEq] at h
  obtain ⟨rfl, rfl, rfl, rfl, rfl, -, rfl, rfl, rfl, rfl, rfl, -, rfl, rfl, rfl, -⟩ := h
  simp only [getClusterInfo, Option.map_bind, Function.comp_def, Option.map_map]
  rfl

theorem getClusterInfo_isSome {c : Cluster} (h : c ∈ d.clusters) :
    ∃ r, getClusterInfo w c d = some r ∧ r.status = c.clusterStatus := by
  obtain ⟨project, hproject⟩ : ∃ p, getProject c.projectID d = some p := by
    obtain ⟨p, hp, hid⟩ := List.mem_map.mp (d.ok.clusters_project_fkey c h)
    exact Option.isSome_iff_exists.mp
      (List.find?_isSome.mpr ⟨p, hp, decide_eq_true hid⟩)
  obtain ⟨environment, henvironment⟩ : ∃ e, getEnvironment c.environmentID d = some e := by
    obtain ⟨e, he, hid⟩ := List.mem_map.mp (d.ok.clusters_environment_fkey c h)
    exact Option.isSome_iff_exists.mp
      (List.find?_isSome.mpr ⟨e, he, decide_eq_true hid⟩)
  rw [getClusterInfo, hproject, Option.bind_some, henvironment, Option.map_some]
  exact ⟨_, rfl, rfl⟩

theorem keepsStatus_iff (hfails : ∀ c, w.fails c = false) (hcancelled : ∀ n, w.cancelled n = false)
    (h : getCluster cl.clusterID d = some cl) {c : Cluster}
    (hc : getCluster cl.clusterID (handleCluster w cl d) = some c) :
    c.clusterStatus = cl.clusterStatus ↔ KeepsStatus w cl d := by
  have hstored : (storedClusterStatus cl.clusterID d).isSome := by
    rw [storedClusterStatus, h]
    rfl
  have hstatus := status_handleCluster hfails hcancelled hstored
  rw [storedClusterStatus, hc, Option.map_some] at hstatus
  rw [KeepsStatus, firstAnswer]
  cases hanswer : (w.rowOrder (getClusterServers cl.clusterID d)).findSome?
      fun s => w.getClusterInfo s.ipAddress with
  | some info =>
    rw [hanswer] at hstatus
    rw [Option.some.inj hstatus]
  | none =>
    rw [hanswer, storedClusterStatus, h] at hstatus
    simp only at hstatus ⊢
    by_cases hflag : getPatroniConnectStatus (BitVec.ofNat 32 cl.flags) = 1
    · rw [if_pos hflag] at hstatus
      rw [Option.some.inj hstatus]
      simp only [hflag, forall_const, eq_comm]
    · rw [if_neg hflag] at hstatus
      simp only [Option.some.inj hstatus, hflag, false_imp_iff]

/-- A refresh answers what the next read does exactly when the look keeps the status. -/
theorem refresh_eq_get_iff (w : Watch) (hfails : ∀ c, w.fails c = false)
    (hcancelled : ∀ n, w.cancelled n = false) (id : ℤ) (d : Db) :
    (postClusterRefreshHandle w id d).1 =
        getClusterHandle w id (postClusterRefreshHandle w id d).2 ↔
      ∀ cl, getCluster id d = some cl → KeepsStatus w cl d := by
  cases h : getCluster id d with
  | none => simp [postClusterRefreshHandle, getClusterHandle, h]
  | some cl =>
    obtain rfl : cl.clusterID = id := by simpa using List.find?_some h
    obtain ⟨c, hc, hsettled⟩ := exists_settled (w := w) h
    obtain ⟨r, hr, hstatus⟩ := getClusterInfo_isSome (w := w) (List.mem_of_find?_eq_some hc)
    have hread := getClusterInfo_settled (w := w) hsettled.symm (handleCluster w cl d)
    simp only [postClusterRefreshHandle, getClusterHandle, h, hc, Option.bind_some, hread, hr,
      Option.map_some, Option.some.injEq, forall_eq']
    rw [← keepsStatus_iff hfails hcancelled h hc]
    constructor
    · intro he
      rw [← hstatus, ← he]
    · intro he
      rw [← he, ← hstatus]

def healthyCluster : Cluster := { importedCluster with clusterStatus := clusterStatusHealthy }

def watchedTables : Tables := { importedTables with clusters := [healthyCluster] }

theorem watchedTables_ok : Constraints watchedTables := by decide

def watched : Db := ⟨watchedTables, watchedTables_ok⟩

def replicaJoins : Watch := calm (some ⟨[runningMember "10.0.0.1", runningMember "10.0.0.2"]⟩)

/-- The members answer, a row is updated and another one inserted. -/
theorem refresh_eq_get_joined :
    ((postClusterRefreshHandle replicaJoins 1 watched).2.servers.map Server.serverStatus =
        [some stateRunning, some stateRunning]) ∧
      (postClusterRefreshHandle replicaJoins 1 watched).1 =
        getClusterHandle replicaJoins 1 (postClusterRefreshHandle replicaJoins 1 watched).2 := by
  refine ⟨by decide +kernel, ?_⟩
  apply (refresh_eq_get_iff replicaJoins (fun _ => rfl) (fun _ => rfl) 1 watched).mpr
  intro cl hcl
  obtain rfl : healthyCluster = cl := Option.some.inj hcl
  have hanswer : firstAnswer replicaJoins healthyCluster watched =
      some ⟨[runningMember "10.0.0.1", runningMember "10.0.0.2"]⟩ := rfl
  rw [KeepsStatus, hanswer]
  decide +kernel

/-- The imported cluster is found healthy, and the answer still says that it is ready. -/
theorem refresh_answers_old_status :
    (postClusterRefreshHandle (calm (some ⟨[runningMember "10.0.0.1"]⟩)) 1 imported).1 ≠
      getClusterHandle (calm (some ⟨[runningMember "10.0.0.1"]⟩)) 1
        (postClusterRefreshHandle (calm (some ⟨[runningMember "10.0.0.1"]⟩)) 1 imported).2 := by
  intro h
  have hstatus := congrArg (Option.map ConsolePostCluster.ClusterInfo.status) h
  have hdiffer : clusterStatusReady ≠ clusterStatusHealthy := by decide
  apply hdiffer
  apply Option.some.inj
  refine Eq.trans ?_ (hstatus.trans ?_)
  · decide +kernel
  · decide +kernel

end ConsoleClusterRefresh
