import Autobase.ConsoleHandleCluster
import Autobase.JsonLogCallback
import Mathlib.Data.List.Dedup

/-! # From the inventory to the status of the cluster

The pre-checks of the deployment print the system information of every host of the play. The log
watcher makes a server of each, the trigger counts them, and the cluster watcher compares the
count with the members of Patroni. -/
namespace ConsoleClusterTopology

open ConsoleSchema ConsoleStatements ConsoleServerCount ConsoleLogEntity ConsoleLogWatcher
  ConsoleHandleCluster JsonLogCallback JsonText RowTables TransitionRuns

/-! ## The play -/

def systemInfoFacts : List String :=
  ["os", "kernel", "cpu", "memory", "disk_space_total", "architecture", "virtualization_type",
    "product_name"]

/-- The variables of a host: the name it is given or has, its location if one is set, its bind
address and the facts that are printed. -/
structure HostVars where
  hostname : String
  serverLocation : Option String
  bindAddress : String
  facts : String → Json

structure Inventory where
  etcdCluster : List String
  consulInstances : List String
  balancers : List String
  master : List String
  replica : List String
  hostvars : String → HostVars

/-- The group of the database hosts has two children. -/
def Inventory.postgresCluster (inv : Inventory) : List String := (inv.master ++ inv.replica).dedup

/-- The pattern `etcd_cluster:consul_instances:balancers:postgres_cluster`. -/
def Inventory.preCheckHosts (inv : Inventory) : List String :=
  (inv.etcdCluster ++ inv.consulInstances ++ inv.balancers ++ inv.postgresCluster).dedup

/-- The message of the task; a location that is not set is omitted. -/
def HostVars.message (h : HostVars) : Json :=
  .obj (("server_name", .str h.hostname) ::
    ((h.serverLocation.map fun l => ("server_location", Json.str l)).toList ++
      ("ip_address", .str h.bindAddress) :: systemInfoFacts.map fun k => (k, h.facts k)))

/-- What the struct of the watcher takes from the message. -/
def HostVars.systemInfo (h : HostVars) : SystemInfo :=
  ⟨h.serverLocation, h.hostname, h.bindAddress⟩

/-- Of every host of the play one result of the task is recorded, in some order, and the log can
be decoded. -/
structure RunRecorded (inv : Inventory) (results : List TaskResult) (stats : Stats) : Prop where
  systemInfo : ((results.filter fun r => decide (r.task = logFieldSystemInfo)).map
      fun r => (r.host, r.result.get? "msg")).Perm
    (inv.preCheckHosts.map fun n => (n, some (inv.hostvars n).message))
  readable : Readable .info results stats

/-- The log of the deployment of a new cluster is imported and no call fails. -/
structure Imported (S : Setup) (w : Conditions) (inv : Inventory) (op : Operation) (d : Db) :
    Prop where
  decodes : ∀ h : HostVars, S.decodeSystemInfo (some h.message) = some h.systemInfo
  calls : ∀ c, w.fails c = false
  noServers : ∀ s ∈ d.servers, s.clusterID ≠ op.clusterID
  log : ∃ cluster results time stats, getCluster op.clusterID d = some cluster ∧
    w.files (logPath S cluster) = some (logText .info results time stats) ∧
    RunRecorded inv results stats

/-! ## The addresses -/

/-- The address under which a host is stored, if its values fit the columns. -/
def storedAddress (pg : Postgres) (h : HostVars) : Option Inet :=
  if textIn h.hostname && h.serverLocation.all textIn then pg.inetIn h.bindAddress else none

def storedAddresses (pg : Postgres) (inv : Inventory) : List Inet :=
  (inv.preCheckHosts.filterMap fun n => storedAddress pg (inv.hostvars n)).dedup

/-- Patroni answers on the database hosts, and every answer names them all, running or
streaming. -/
structure PatroniReports (pg : Postgres) (inv : Inventory)
    (getClusterInfo : Inet → Option ClusterInfo) : Prop where
  answers : ∀ ip, (getClusterInfo ip).isSome ↔
    ∃ n ∈ inv.postgresCluster, storedAddress pg (inv.hostvars n) = some ip
  members : ∀ ip info, getClusterInfo ip = some info →
    (info.members.map Member.host).Perm
      (inv.postgresCluster.map fun n => (inv.hostvars n).bindAddress)
  states : ∀ ip info, getClusterInfo ip = some info →
    ∀ m ∈ info.members, m.state = stateRunning ∨ m.state = stateStreaming

variable {S : Setup} {w : Conditions} {inv : Inventory} {op : Operation} {d d' : Db}
  {cluster : Cluster} {pg : Postgres}

theorem mem_storedAddresses {ip : Inet} : ip ∈ storedAddresses pg inv ↔
    ∃ n ∈ inv.preCheckHosts, storedAddress pg (inv.hostvars n) = some ip := by
  simp [storedAddresses]

theorem mem_preCheckHosts_of_database {n : String} (h : n ∈ inv.postgresCluster) :
    n ∈ inv.preCheckHosts := by
  rw [Inventory.preCheckHosts, List.mem_dedup]
  exact List.mem_append_right _ h

/-! ## The entries of the log -/

/-- The names of a recorded result that a field of an entry takes. -/
theorem base_fields (r : TaskResult) :
    (baseResult r).foldl assignMember .zero = { LogEntity.zero with task := r.task } := by
  have htime := unspelled_keys "time" (by simp)
  have hhost := unspelled_keys "host" (by simp)
  have hitem : ∀ e, (itemOf r.result).foldl assignMember e = e := by
    intro e
    rw [itemOf]
    have hkey := unspelled_keys "item" (by simp)
    split
    · simp [assignMember, hkey]
    · split <;> simp [assignMember, hkey]
  rw [baseResult, List.foldl_append, hitem]
  simp [assignMember, htime, hhost, spelled_keys.1, assign]

theorem recorded_entry {r : TaskResult} {e : LogEntity}
    (h : decodeEntity (.obj (taskResultMembers r .info)) = some e) :
    e.task = r.task ∧ e.msg = interfaceOf (r.result.get "msg" (.str "")) := by
  have hkeys : ∀ k ∈ ["time", "task", "host", "item"], k ∉ ["changed", "failed", "msg"] := by decide
  have hdisjoint : ∀ k ∈ (baseResult r).map Prod.fst,
      k ∉ (basicResult r.result).items.map Prod.fst := by
    intro k hk
    apply hkeys
    rcases baseResult_key hk with rfl | ⟨-, hk⟩
    · simp
    · simp only [List.mem_cons, List.not_mem_nil, or_false] at hk ⊢
      tauto
  have hchanged := unspelled_keys "changed" (by simp)
  obtain ⟨-, hfailed, hmsg, -, -⟩ := spelled_keys
  rw [taskResultMembers, merged_disjoint hdisjoint, decodeEntity, decodeMembers_eq_some] at h
  obtain ⟨-, rfl⟩ := h
  rw [List.foldl_append, base_fields]
  simp only [basicResult, List.foldl_cons, List.foldl_nil, assignMember, hchanged, hfailed, hmsg]
  cases r.result.get "failed" (.bool false) <;> exact ⟨rfl, rfl⟩

theorem recorded_messages {results : List TaskResult} {entries : List LogEntity}
    (h : List.Forall₂ (fun r e => decodeEntity (.obj (taskResultMembers r .info)) = some e)
      results entries) :
    (entries.filter fun e => decide (e.task = logFieldSystemInfo)).map LogEntity.msg =
      (results.filter fun r => decide (r.task = logFieldSystemInfo)).map
        fun r => interfaceOf (r.result.get "msg" (.str "")) := by
  induction h with
  | nil => rfl
  | @cons r e rs es hentry _ ih =>
    obtain ⟨htask, hmsg⟩ := recorded_entry hentry
    by_cases hsystem : r.task = logFieldSystemInfo
    · rw [List.filter_cons_of_pos (by simpa [htask] using hsystem),
        List.filter_cons_of_pos (by simpa using hsystem), List.map_cons, List.map_cons, hmsg, ih]
    · rw [List.filter_cons_of_neg (by simpa [htask] using hsystem),
        List.filter_cons_of_neg (by simpa using hsystem), ih]

/-- The log holds the message of every host of the play. -/
theorem decoded_log {results : List TaskResult} {stats : Stats} (h : RunRecorded inv results stats)
    (time : String) : ∃ logs, decodeLogs (logText .info results time stats) = some logs ∧
      ((logs.filter fun e => decide (e.task = logFieldSystemInfo)).map LogEntity.msg).Perm
        (inv.preCheckHosts.map fun n => some (inv.hostvars n).message) := by
  obtain ⟨hne, hentries, hcounts⟩ := h.readable
  obtain ⟨entries, hall, -⟩ := (tasks_recorded .info results).mpr hentries
  refine ⟨entries ++ [summaryEntry stats], (decodeLogs_recorded .info time stats hne).mpr
    ⟨hall, (decodeEntity_summary time stats).mpr ⟨hcounts, rfl⟩⟩, ?_⟩
  have hsummary : (summaryEntry stats).task ≠ logFieldSystemInfo := by
    show "" ≠ logFieldSystemInfo
    decide
  rw [List.filter_append, List.filter_cons_of_neg (by simpa using hsummary), List.filter_nil,
    List.append_nil, recorded_messages hall]
  have hperm := h.systemInfo.map fun x : String × Option Json => interfaceOf (x.2.getD (.str ""))
  rw [List.map_map, List.map_map] at hperm
  exact hperm

theorem asksFor_message (hdecode : ∀ h : HostVars, S.decodeSystemInfo (some h.message) =
    some h.systemInfo) (hcalls : ∀ c, w.fails c = false) {x : LogEntity × ℕ} {h : HostVars}
    (htask : x.1.task = logFieldSystemInfo) (hmsg : x.1.msg = some h.message) :
    asksFor S w cluster x = storedAddress S.pg h := by
  rw [asksFor, if_pos htask, hmsg, hdecode, Option.bind_some, if_neg (by simp [hcalls])]
  rfl

/-- The addresses the log asks for. -/
theorem asked_addresses (hdecode : ∀ h : HostVars, S.decodeSystemInfo (some h.message) =
      some h.systemInfo) (hcalls : ∀ c, w.fails c = false) {logs : List LogEntity}
    (hlogs : ((logs.filter fun e => decide (e.task = logFieldSystemInfo)).map LogEntity.msg).Perm
      (inv.preCheckHosts.map fun n => some (inv.hostvars n).message)) (ip : Inet) :
    (∃ j e, j < logs.length ∧ logs[j]? = some e ∧ asksFor S w cluster (e, j) = some ip) ↔
      ip ∈ storedAddresses S.pg inv := by
  rw [mem_storedAddresses]
  constructor
  · rintro ⟨j, e, -, hj, hasks⟩
    have htask : e.task = logFieldSystemInfo := by
      by_contra hne
      simp [asksFor, hne] at hasks
    have hmem : e.msg ∈ inv.preCheckHosts.map fun n => some (inv.hostvars n).message := by
      apply hlogs.subset
      apply List.mem_map_of_mem
      exact List.mem_filter.mpr ⟨List.mem_of_getElem? hj, decide_eq_true htask⟩
    obtain ⟨n, hn, hmsg⟩ := List.mem_map.mp hmem
    rw [asksFor_message hdecode hcalls htask hmsg.symm] at hasks
    exact ⟨n, hn, hasks⟩
  · rintro ⟨n, hn, hstored⟩
    have hmem : some (inv.hostvars n).message ∈
        (logs.filter fun e => decide (e.task = logFieldSystemInfo)).map LogEntity.msg :=
      hlogs.symm.subset (List.mem_map_of_mem (f := fun n => some (inv.hostvars n).message) hn)
    obtain ⟨e, he, hmsg⟩ := List.mem_map.mp hmem
    obtain ⟨he, htask⟩ := List.mem_filter.mp he
    obtain ⟨j, hj⟩ := List.mem_iff_getElem?.mp he
    obtain ⟨hlt, -⟩ := List.getElem?_eq_some_iff.mp hj
    refine ⟨j, e, hlt, hj, ?_⟩
    rw [asksFor_message hdecode hcalls (of_decide_eq_true htask) hmsg]
    exact hstored

/-! ## The count -/

/-- Once the cluster has a server its count is the number of its servers. -/
def CountFollows (id : ℤ) (d : Db) : Prop :=
  (∃ s ∈ d.servers, s.clusterID = id) →
    ∀ c ∈ d.clusters, c.clusterID = id → c.serverCount = rowCount id d.servers

def counted (c : Cluster) : ℤ × ℤ := (c.clusterID, c.serverCount)

theorem countFollows_rowWrite {id : ℤ} (h : RowWrite d d' id) : CountFollows id d' := by
  obtain ⟨servers, n, ht⟩ := h.tables
  have hservers : d'.servers = servers := by rw [ht]; rfl
  have hclusters : d'.clusters = updateWhere (fun c => decide (some id = some c.clusterID))
      (fun c =>
        { c with serverCount := servers.countP fun s => decide (some id = some s.clusterID) })
      d.clusters := by rw [ht]; rfl
  intro _ c hc hid
  rw [hclusters] at hc
  obtain ⟨b, -, rfl⟩ := mem_updateWhere.mp hc
  split at hid
  · next hb =>
    rw [if_pos hb, hservers, rowCount]
    simp only [Option.some.injEq, eq_comm]
  · next hb => exact absurd hid.symm (by simpa using hb)

theorem countFollows_of_same {id : ℤ} (hservers : d'.servers = d.servers)
    (hclusters : d'.clusters.map counted = d.clusters.map counted) (h : CountFollows id d) :
    CountFollows id d' := by
  intro hrow c hc hid
  rw [hservers] at hrow ⊢
  have hmem : counted c ∈ d.clusters.map counted := hclusters ▸ List.mem_map_of_mem hc
  obtain ⟨b, hb, hcounted⟩ := List.mem_map.mp hmem
  obtain ⟨hbid, hcount⟩ := Prod.mk.inj hcounted
  rw [← hcount]
  exact h hrow b hb (hbid.trans hid)

theorem counted_updateCluster {req : UpdateClusterReq} {c : Cluster}
    (h : updateCluster pg req d = some (c, d')) :
    d'.servers = d.servers ∧ d'.clusters.map counted = d.clusters.map counted := by
  obtain ⟨info, -, -, ht, -⟩ := updateCluster_eq_some.mp h
  refine ⟨by rw [ht], ?_⟩
  have hclusters : d'.clusters = updateWhere (fun c => decide (c.clusterID = req.id))
    (req.apply info) d.clusters := by rw [ht]
  have hcounted : ∀ c, counted (req.apply info c) = counted c := fun _ => rfl
  rw [hclusters]
  exact map_updateWhere hcounted _

theorem countFollows_writeEntry (hid : cluster.clusterID = op.clusterID) {x : LogEntity × ℕ}
    (h : writeEntry S w cluster op x d = some d') (hd : CountFollows op.clusterID d) :
    CountFollows op.clusterID d' := by
  rw [writeEntry] at h
  split at h
  · obtain ⟨info, -, h⟩ := Option.bind_eq_some_iff.mp h
    split at h
    · cases h
    · have hexec : exec S.pg (.createServer ⟨cluster.clusterID, info.serverName,
          info.serverLocation, info.ipAddress⟩) d = some d' := h
      have hrow := exec_createServer hexec
      rw [show (CreateServerReq.mk cluster.clusterID info.serverName info.serverLocation
        info.ipAddress).clusterID = op.clusterID from hid] at hrow
      exact countFollows_rowWrite hrow
  · split at h
    · split at h
      · cases h
      · obtain ⟨⟨c, e⟩, hupdate, rfl⟩ := Option.map_eq_some_iff.mp h
        obtain ⟨hservers, hclusters⟩ := counted_updateCluster hupdate
        exact countFollows_of_same hservers hclusters hd
    · rw [← Option.some.inj h]
      exact hd

theorem countFollows_collectEntries (hid : cluster.clusterID = op.clusterID)
    (hd : CountFollows op.clusterID d) (logs : List LogEntity) :
    CountFollows op.clusterID (collectEntries S w cluster op d logs).1 := by
  refine run_of (I := fun r : Db × String => CountFollows op.clusterID r.1) ?_ hd logs.zipIdx
  intro r x hr
  rw [collectEntry]
  cases hw : writeEntry S w cluster op x r.1 with
  | none => exact hr
  | some d' => exact countFollows_writeEntry hid hw hr

theorem counted_storeStatuses (status clusterStatus : String) (d : Db) :
    (storeStatuses S w op status clusterStatus d).servers = d.servers ∧
      (storeStatuses S w op status clusterStatus d).clusters.map counted =
        d.clusters.map counted := by
  have hoperation : ∀ (fails : Bool) (req : UpdateOperationReq),
      (attempt fails (updateOperation req) d).servers = d.servers ∧
        (attempt fails (updateOperation req) d).clusters = d.clusters := by
    intro fails req
    refine attempt_keeps (I := fun t => t.servers = d.servers ∧ t.clusters = d.clusters) ⟨rfl, rfl⟩
      fun d' hu => ?_
    obtain ⟨-, -, -, ht⟩ := updateOperation_eq_some.mp hu
    exact ⟨by rw [ht], by rw [ht]⟩
  obtain ⟨hservers, hclusters⟩ := hoperation (w.fails .updateOperation) ⟨op.id, some status, none⟩
  rw [← hservers, ← hclusters, storeStatuses]
  exact attempt_cluster_keeps
    (I := fun t => t.servers = _ ∧ t.clusters.map counted = List.map counted _) ⟨rfl, rfl⟩
    fun c d' hu => counted_updateCluster hu

/-- The servers of the cluster after an import. -/
structure ServersStored (pg : Postgres) (inv : Inventory) (id : ℤ) (d : Db) : Prop where
  addresses : ∀ ip, (∃ s ∈ getClusterServers id d, s.ipAddress = ip) ↔
    ip ∈ storedAddresses pg inv
  count : (∃ s ∈ d.servers, s.clusterID = id) →
    ∀ c ∈ d.clusters, c.clusterID = id → c.serverCount = (storedAddresses pg inv).length
  status : (storedClusterStatus id d).isSome ∧
    storedClusterStatus id d ≠ some clusterStatusHealthy

theorem mem_getClusterServers {id : ℤ} {s : Server} :
    s ∈ getClusterServers id d ↔ s ∈ d.servers ∧ s.clusterID = id := by
  simp [getClusterServers]

/-- The servers of a cluster are as many as their addresses. -/
theorem rowCount_addresses {id : ℤ}
    (h : ∀ ip, (∃ s ∈ getClusterServers id d, s.ipAddress = ip) ↔ ip ∈ storedAddresses pg inv) :
    rowCount id d.servers = (storedAddresses pg inv).length := by
  have hnodup : ((getClusterServers id d).map Server.ipAddress).Nodup := by
    have hkeys : ((getClusterServers id d).map Server.key).Nodup :=
      d.ok.servers_address_idx.sublist (List.filter_sublist.map _)
    have hkey : (getClusterServers id d).map Server.key =
        ((getClusterServers id d).map Server.ipAddress).map fun ip => (id, ip) := by
      rw [List.map_map]
      apply List.map_congr_left
      intro s hs
      exact Prod.ext (mem_getClusterServers.mp hs).2 rfl
    rw [hkey] at hkeys
    exact hkeys.of_map _
  have hperm : ((getClusterServers id d).map Server.ipAddress).Perm (storedAddresses pg inv) := by
    have hdistinct : (storedAddresses pg inv).Nodup := List.nodup_dedup _
    rw [List.perm_ext_iff_of_nodup hnodup hdistinct]
    intro ip
    rw [← h ip, List.mem_map]
  rw [← hperm.length_eq, List.length_map, getClusterServers, ← List.countP_eq_length_filter,
    rowCount]

theorem clusterStatusFor_ne (status : String) :
    some (clusterStatusFor status) ≠ some clusterStatusHealthy := by
  rw [clusterStatusFor]
  split <;> decide

theorem imported_servers (h : Imported S w inv op d) :
    ServersStored S.pg inv op.clusterID (collectContainerLog S w op d) := by
  obtain ⟨cluster, results, time, stats, hcluster, hfile, hrun⟩ := h.log
  obtain ⟨logs, hdecode, hmessages⟩ := decoded_log hrun time
  obtain ⟨hid, hmem⟩ := cluster_of_getCluster hcluster
  have hcollected : Collected S w cluster d logs logs.length
      (collectEntries S w cluster op d logs) := collected_entries hid hmem
  have hlog : collectContainerLog S w op d = collectLogs S w cluster op logs d := by
    rw [collectContainerLog, if_neg (by simp [h.calls]), hcluster]
    simp only [hfile, Option.bind_some, hdecode]
  have hcounted : (collectLogs S w cluster op logs d).servers =
        (collectEntries S w cluster op d logs).1.servers ∧
      (collectLogs S w cluster op logs d).clusters.map counted =
        (collectEntries S w cluster op d logs).1.clusters.map counted :=
    counted_storeStatuses _ _ _
  obtain ⟨hservers, hclusters⟩ := hcounted
  have haddresses : ∀ ip, (∃ s ∈ getClusterServers op.clusterID (collectContainerLog S w op d),
      s.ipAddress = ip) ↔ ip ∈ storedAddresses S.pg inv := by
    intro ip
    have hasked : (∃ j e, j < logs.length ∧ logs[j]? = some e ∧
        asksFor S w cluster (e, j) = some ip) ↔ ip ∈ storedAddresses S.pg inv :=
      asked_addresses h.decodes h.calls hmessages ip
    rw [← hasked, hlog]
    have hrows := hcollected.servers ip
    rw [← hservers, Taken] at hrows
    have hnone : (cluster.clusterID, ip) ∉ d.servers.map Server.key := by
      intro hkey
      obtain ⟨s, hs, hk⟩ := List.mem_map.mp hkey
      exact h.noServers s hs ((congrArg Prod.fst hk).trans hid)
    rw [or_iff_right hnone] at hrows
    rw [← hrows, List.mem_map]
    constructor
    · rintro ⟨s, hs, rfl⟩
      obtain ⟨hs, hsid⟩ := mem_getClusterServers.mp hs
      exact ⟨s, hs, Prod.ext (hsid.trans hid.symm) rfl⟩
    · rintro ⟨s, hs, hk⟩
      obtain ⟨hsid, hip⟩ := Prod.mk.inj hk
      exact ⟨s, mem_getClusterServers.mpr ⟨hs, hsid.trans hid⟩, hip⟩
  refine ⟨haddresses, ?_, ?_⟩
  · rw [← rowCount_addresses haddresses, hlog]
    apply countFollows_of_same hservers hclusters
    apply countFollows_collectEntries hid
    rintro ⟨s, hs, hsid⟩
    exact absurd hsid (h.noServers s hs)
  · rw [storedClusterStatus_collect (h.calls _) (h.calls _) hcluster]
    exact ⟨rfl, clusterStatusFor_ne _⟩

/-! ## The next look of the cluster watcher -/

/-- Members that are all running or streaming leave only their number to decide. -/
theorem statusFor_all {cl : Cluster} {info : ClusterInfo}
    (hstates : ∀ m ∈ info.members, m.state = stateRunning ∨ m.state = stateStreaming) :
    statusFor cl info = if cl.serverCount ≤ info.members.length then clusterStatusHealthy
      else clusterStatusDegraded := by
  have hall : healthyServers info = info.members.length := by
    rw [healthyServers, List.countP_eq_length]
    intro m hm
    exact decide_eq_true (hstates m hm)
  rw [statusFor, hall]
  split
  · rename_i hfew
    rw [if_neg (by omega)]
  · rename_i henough
    rw [if_pos (by omega)]

section NextLook

variable {v : Watch} {cl : Cluster} (h : Imported S w inv op d) (hfails : ∀ c, v.fails c = false)
  (hcancelled : ∀ n, v.cancelled n = false)
  (hpatroni : PatroniReports S.pg inv v.getClusterInfo)
  (hcl : cl ∈ (collectContainerLog S w op d).clusters) (hid : cl.clusterID = op.clusterID)

include h hfails hcancelled hpatroni hid

include hcl in
/-- A database host has a server, so Patroni is asked and its members are counted. -/
theorem status_answered
    (hdatabase : ∃ n ∈ inv.postgresCluster, (storedAddress S.pg (inv.hostvars n)).isSome) :
    storedClusterStatus op.clusterID (handleCluster v cl (collectContainerLog S w op d)) =
      some (if (storedAddresses S.pg inv).length ≤ inv.postgresCluster.length then
        clusterStatusHealthy else clusterStatusDegraded) := by
  have hstored := imported_servers h
  rw [← hid] at hstored ⊢
  rw [status_handleCluster hfails hcancelled hstored.status.1]
  cases hanswer : (v.rowOrder (getClusterServers cl.clusterID
      (collectContainerLog S w op d))).findSome? fun s => v.getClusterInfo s.ipAddress with
  | some info =>
    obtain ⟨s, hs, hinfo⟩ := List.exists_of_findSome?_eq_some hanswer
    have hs := (v.rowOrder_perm _).mem_iff.mp hs
    have hmembers : info.members.length = inv.postgresCluster.length := by
      simpa using (hpatroni.members _ info hinfo).length_eq
    have hcount := hstored.count ⟨s, mem_getClusterServers.mp hs⟩ cl hcl rfl
    simp only [statusFor_all (hpatroni.states _ info hinfo), hcount, hmembers, Int.ofNat_le]
  | none =>
    obtain ⟨n, hn, hip⟩ := hdatabase
    obtain ⟨ip, hip⟩ := Option.isSome_iff_exists.mp hip
    obtain ⟨s, hs, rfl⟩ := (hstored.addresses ip).mpr
      (mem_storedAddresses.mpr ⟨n, mem_preCheckHosts_of_database hn, hip⟩)
    have hnone := List.findSome?_eq_none_iff.mp hanswer s ((v.rowOrder_perm _).mem_iff.mpr hs)
    have hsome := (hpatroni.answers s.ipAddress).mpr ⟨n, hn, hip⟩
    rw [hnone] at hsome
    cases hsome

/-- Otherwise nobody answers and the status is not that of an answer. -/
theorem status_silent
    (hdatabase : ¬ ∃ n ∈ inv.postgresCluster, (storedAddress S.pg (inv.hostvars n)).isSome) :
    storedClusterStatus op.clusterID (handleCluster v cl (collectContainerLog S w op d)) ≠
      some clusterStatusHealthy := by
  have hstored := imported_servers h
  rw [← hid] at hstored ⊢
  rw [status_handleCluster hfails hcancelled hstored.status.1]
  cases hanswer : (v.rowOrder (getClusterServers cl.clusterID
      (collectContainerLog S w op d))).findSome? fun s => v.getClusterInfo s.ipAddress with
  | some info =>
    obtain ⟨s, -, hinfo⟩ := List.exists_of_findSome?_eq_some hanswer
    obtain ⟨n, hn, hip⟩ := (hpatroni.answers s.ipAddress).mp (by rw [hinfo]; rfl)
    exact absurd ⟨n, hn, by rw [hip]; rfl⟩ hdatabase
  | none =>
    show (if _ then _ else _) ≠ _
    split
    · decide
    · exact hstored.status.2

end NextLook

/-- After the import of its log, a new cluster whose database hosts all report well is stored as
healthy exactly when one of them has a server and the hosts of the play have no more addresses
than there are database hosts. -/
theorem deployed_healthy_iff {v : Watch} {cl : Cluster} (h : Imported S w inv op d)
    (hfails : ∀ c, v.fails c = false) (hcancelled : ∀ n, v.cancelled n = false)
    (hpatroni : PatroniReports S.pg inv v.getClusterInfo)
    (hcl : cl ∈ (collectContainerLog S w op d).clusters) (hid : cl.clusterID = op.clusterID) :
    storedClusterStatus op.clusterID (handleCluster v cl (collectContainerLog S w op d)) =
        some clusterStatusHealthy ↔
      (∃ n ∈ inv.postgresCluster, (storedAddress S.pg (inv.hostvars n)).isSome) ∧
        (storedAddresses S.pg inv).length ≤ inv.postgresCluster.length := by
  by_cases hdatabase : ∃ n ∈ inv.postgresCluster, (storedAddress S.pg (inv.hostvars n)).isSome
  · rw [status_answered h hfails hcancelled hpatroni hcl hid hdatabase, and_iff_right hdatabase]
    by_cases hle : (storedAddresses S.pg inv).length ≤ inv.postgresCluster.length
    · rw [if_pos hle]
      exact iff_of_true rfl hle
    · rw [if_neg hle]
      exact iff_of_false (by decide) hle
  · exact iff_of_false (status_silent h hfails hcancelled hpatroni hid hdatabase)
      fun hboth => hdatabase hboth.1

/-- Where different hosts have different addresses, the condition is that no host of the play is
without a database. -/
theorem addresses_le_iff (hstored : ∀ n ∈ inv.preCheckHosts,
      (storedAddress pg (inv.hostvars n)).isSome)
    (hdistinct : ∀ m ∈ inv.preCheckHosts, ∀ n ∈ inv.preCheckHosts,
      storedAddress pg (inv.hostvars m) = storedAddress pg (inv.hostvars n) → m = n) :
    (storedAddresses pg inv).length ≤ inv.postgresCluster.length ↔
      ∀ n ∈ inv.preCheckHosts, n ∈ inv.postgresCluster := by
  have hhosts : inv.preCheckHosts.Nodup := List.nodup_dedup _
  have hlength : (storedAddresses pg inv).length = inv.preCheckHosts.length := by
    have hmap : (inv.preCheckHosts.filterMap fun n => storedAddress pg (inv.hostvars n)).map some =
        inv.preCheckHosts.map fun n => storedAddress pg (inv.hostvars n) := by
      clear hdistinct hhosts
      generalize inv.preCheckHosts = hosts at hstored ⊢
      induction hosts with
      | nil => rfl
      | cons n hosts ih =>
        obtain ⟨hn, hrest⟩ := List.forall_mem_cons.mp hstored
        obtain ⟨ip, hip⟩ := Option.isSome_iff_exists.mp hn
        simp only [List.filterMap_cons, hip, List.map_cons, ih hrest]
    have hnodup : ((inv.preCheckHosts.filterMap fun n =>
        storedAddress pg (inv.hostvars n)).map some).Nodup := by
      rw [hmap]
      exact hhosts.map_on hdistinct
    have hsame := congrArg List.length hmap
    rw [List.length_map, List.length_map] at hsame
    rw [storedAddresses, hnodup.of_map.dedup, hsame]
  have hsub : inv.postgresCluster.Subperm inv.preCheckHosts :=
    (List.nodup_dedup _).subperm fun _ hn => mem_preCheckHosts_of_database hn
  rw [hlength]
  constructor
  · intro hle n hn
    exact (hsub.perm_of_length_le hle).mem_iff.mpr hn
  · intro hall
    exact (hhosts.subperm hall).length_le

/-! ## Two inventories -/

/-- A host that is known by its address. -/
def plainHost (address : String) : HostVars := ⟨address, none, address, fun _ => .str "N/A"⟩

def plainInventory (etcdCluster master : List String) : Inventory :=
  ⟨etcdCluster, [], [], master, [], plainHost⟩

/-- The three keys of the message that the struct names. -/
def decodeSystemInfo : Option Json → Option SystemInfo
  | some (.obj fields) =>
    match fields.lookup "server_name", fields.lookup "server_location",
      fields.lookup "ip_address" with
    | some (.str name), some (.str l), some (.str ip) => some ⟨some l, name, ip⟩
    | some (.str name), none, some (.str ip) => some ⟨none, name, ip⟩
    | _, _, _ => none
  | _ => none

theorem decodeSystemInfo_message (h : HostVars) :
    decodeSystemInfo (some h.message) = some h.systemInfo := by
  obtain ⟨name, location, address, facts⟩ := h
  cases location <;>
    simp [decodeSystemInfo, HostVars.message, HostVars.systemInfo, systemInfoFacts,
      List.lookup_cons]

def decodingSetup : Setup := ⟨acceptAll, "/tmp/ansible", decodeSystemInfo⟩

def printedResult (inv : Inventory) (n : String) : TaskResult :=
  ⟨"2025-01-01T00:00:00", logFieldSystemInfo, n, ⟨[("msg", (inv.hostvars n).message)], by simp⟩⟩

def printedResults (inv : Inventory) : List TaskResult := inv.preCheckHosts.map (printedResult inv)

def deployedConditions (inv : Inventory) : Conditions :=
  ⟨fun _ => false, onlyFile (logText .info (printedResults inv) "2025-01-01T00:00:00" [])⟩

theorem imported_plain {etcdCluster master : List String}
    (hhosts : (plainInventory etcdCluster master).preCheckHosts ≠ []) :
    Imported decodingSetup (deployedConditions (plainInventory etcdCluster master))
      (plainInventory etcdCluster master) deployOperation deploying where
  decodes := decodeSystemInfo_message
  calls := fun _ => rfl
  noServers := by decide
  log := by
    refine ⟨deployRequest.row 1 0, printedResults (plainInventory etcdCluster master),
      "2025-01-01T00:00:00", [], rfl, onlyFile_logPath _, ?_, ?_, ?_, fun h hh => nomatch hh⟩
    · have hall : (printedResults (plainInventory etcdCluster master)).filter
          (fun r => decide (r.task = logFieldSystemInfo)) =
            printedResults (plainInventory etcdCluster master) := by
        rw [List.filter_eq_self]
        intro r hr
        obtain ⟨n, -, rfl⟩ := List.mem_map.mp hr
        rfl
      rw [hall, printedResults, List.map_map]
      exact List.Perm.of_eq rfl
    · simpa [printedResults] using hhosts
    · intro r hr
      obtain ⟨n, -, rfl⟩ := List.mem_map.mp hr
      exact ⟨rfl, rfl⟩

/-- Patroni on the database hosts of such an inventory. -/
def plainWatch (hosts : List String) : Watch where
  pg := acceptAll
  getClusterInfo := fun ip =>
    if ip ∈ hosts then
      some ⟨hosts.map fun n => ⟨n, "replica", stateStreaming, n, 1, none, none, false⟩⟩
    else none
  fails := fun _ => false
  cancelled := fun _ => false
  ipString := id
  rowOrder := id
  rowOrder_perm := fun _ => List.Perm.refl _
  mapOrder := id
  mapOrder_perm := fun _ => List.Perm.refl _

theorem plainWatch_reports {inv : Inventory} (hvars : inv.hostvars = plainHost)
    (htext : ∀ n ∈ inv.postgresCluster, textIn n = true) :
    PatroniReports acceptAll inv (plainWatch inv.postgresCluster).getClusterInfo := by
  have hstored : ∀ n ∈ inv.postgresCluster,
      storedAddress acceptAll (inv.hostvars n) = some n := by
    intro n hn
    rw [hvars, storedAddress, plainHost, htext n hn]
    rfl
  have hinfo : ∀ ip info, (plainWatch inv.postgresCluster).getClusterInfo ip = some info →
      info = ⟨inv.postgresCluster.map fun n =>
        ⟨n, "replica", stateStreaming, n, 1, none, none, false⟩⟩ := by
    intro ip info h
    simp only [plainWatch] at h
    split at h
    · exact (Option.some.inj h).symm
    · cases h
  refine ⟨fun ip => ?_, fun ip info h => ?_, fun ip info h m hm => ?_⟩
  · constructor
    · intro hsome
      by_cases hip : ip ∈ inv.postgresCluster
      · exact ⟨ip, hip, hstored ip hip⟩
      · simp [plainWatch, hip] at hsome
    · rintro ⟨n, hn, hip⟩
      obtain rfl := Option.some.inj ((hstored n hn).symm.trans hip)
      simp [plainWatch, hn]
  · rw [hinfo ip info h, hvars, List.map_map]
    exact List.Perm.of_eq rfl
  · rw [hinfo ip info h] at hm
    obtain ⟨n, -, rfl⟩ := List.mem_map.mp hm
    exact Or.inr rfl

theorem exists_cluster (h : Imported S w inv op d) :
    ∃ cl ∈ (collectContainerLog S w op d).clusters, cl.clusterID = op.clusterID := by
  have hstatus := (imported_servers h).status.1
  rw [storedClusterStatus, Option.isSome_map] at hstatus
  obtain ⟨c, hc⟩ := Option.isSome_iff_exists.mp hstatus
  exact ⟨c, List.mem_of_find?_eq_some hc, by simpa using List.find?_some hc⟩

/-- The database hosts run etcd themselves. -/
def sharedInventory : Inventory :=
  plainInventory ["10.0.0.1", "10.0.0.2"] ["10.0.0.1", "10.0.0.2"]

theorem shared_hosts_healthy :
    ∃ cl ∈ (collectContainerLog decodingSetup (deployedConditions sharedInventory)
        deployOperation deploying).clusters,
      storedClusterStatus deployOperation.clusterID
          (handleCluster (plainWatch sharedInventory.postgresCluster) cl
            (collectContainerLog decodingSetup (deployedConditions sharedInventory)
              deployOperation deploying)) = some clusterStatusHealthy ↔
        (∃ n ∈ sharedInventory.postgresCluster,
            (storedAddress acceptAll (sharedInventory.hostvars n)).isSome) ∧
          (storedAddresses acceptAll sharedInventory).length ≤
            sharedInventory.postgresCluster.length := by
  have himported : Imported decodingSetup (deployedConditions sharedInventory) sharedInventory
      deployOperation deploying := imported_plain (by decide)
  have hreports : PatroniReports acceptAll sharedInventory
      (plainWatch sharedInventory.postgresCluster).getClusterInfo :=
    plainWatch_reports rfl (by decide)
  obtain ⟨cl, hcl, hid⟩ := exists_cluster himported
  exact ⟨cl, hcl, deployed_healthy_iff himported (fun _ => rfl) (fun _ => rfl) hreports hcl hid⟩

/-- One database host and an etcd host of its own. -/
def dedicatedInventory : Inventory := plainInventory ["10.0.0.9"] ["10.0.0.1"]

theorem dedicated_etcd_degraded :
    Imported decodingSetup (deployedConditions dedicatedInventory) dedicatedInventory
        deployOperation deploying ∧
      PatroniReports acceptAll dedicatedInventory
        (plainWatch dedicatedInventory.postgresCluster).getClusterInfo ∧
      ∃ cl ∈ (collectContainerLog decodingSetup (deployedConditions dedicatedInventory)
          deployOperation deploying).clusters,
        cl.clusterID = deployOperation.clusterID ∧
          storedClusterStatus deployOperation.clusterID
            (handleCluster (plainWatch dedicatedInventory.postgresCluster) cl
              (collectContainerLog decodingSetup (deployedConditions dedicatedInventory)
                deployOperation deploying)) = some clusterStatusDegraded := by
  have himported : Imported decodingSetup (deployedConditions dedicatedInventory)
      dedicatedInventory deployOperation deploying := imported_plain (by decide)
  have hreports : PatroniReports acceptAll dedicatedInventory
      (plainWatch dedicatedInventory.postgresCluster).getClusterInfo :=
    plainWatch_reports rfl (by decide)
  obtain ⟨cl, hcl, hid⟩ := exists_cluster himported
  refine ⟨himported, hreports, cl, hcl, hid, ?_⟩
  have hstatus := status_answered himported (fun _ => rfl) (fun _ => rfl) hreports hcl hid
    ⟨"10.0.0.1", by decide, by decide +kernel⟩
  have hmore : ¬ (storedAddresses decodingSetup.pg dedicatedInventory).length ≤
      dedicatedInventory.postgresCluster.length := by decide +kernel
  rwa [if_neg hmore] at hstatus

end ConsoleClusterTopology
