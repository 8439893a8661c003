import Autobase.ConsoleServerCount
import Mathlib.Data.List.Dedup

/-! # The watcher looks at one cluster

The servers of a cluster are asked in turn until one answers for Patroni. Its answer updates the
rows of the members and decides the status of the cluster; rows it does not mention are reset. -/
namespace ConsoleHandleCluster

open ConsoleSchema ConsoleStatements ConsoleServerCount RowTables TransitionRuns JsonText

def clusterStatusHealthy : String := "healthy"
def clusterStatusUnhealthy : String := "unhealthy"
def clusterStatusDegraded : String := "degraded"
def clusterStatusUnavailable : String := "unavailable"

def stateRunning : String := "running"
def stateStreaming : String := "streaming"

def patroniConnectStatusMaskSet : BitVec 32 := 0x1
def patroniConnectStatusMaskRemove : BitVec 32 := 0xfffffff6

def setPatroniConnectStatus (oldMask status : BitVec 32) : BitVec 32 :=
  (oldMask &&& patroniConnectStatusMaskRemove) ||| (status &&& patroniConnectStatusMaskSet)

def getPatroniConnectStatus (mask : BitVec 32) : BitVec 32 := mask &&& patroniConnectStatusMaskSet

/-- `lag` is the number the answer holds, and none for a value of another type. -/
structure Member where
  name : String
  role : String
  state : String
  host : String
  timeline : ℤ
  lag : Option ℤ
  tags : Option Json
  pendingRestart : Bool

structure ClusterInfo where
  members : List Member

def Member.request (clusterID : ℤ) (m : Member) : UpdateServerReq :=
  ⟨clusterID, m.host, m.name, some m.role, some m.state, some m.timeline, m.lag, m.tags,
    some m.pendingRestart⟩

/-- The storage calls; members of an answer count from zero. -/
inductive Call where
  | getClusterServers
  | updateServer (member : ℕ)
  | updateCluster
  | resetServer (ipAddress : String)

/-- What happens around one look: the answers of Patroni, the calls that fail, the servers before
which the context is found cancelled, the text the runtime prints for an address, and the orders
in which the database returns rows and the runtime walks through a map. -/
structure Watch where
  pg : Postgres
  getClusterInfo : Inet → Option ClusterInfo
  fails : Call → Bool
  cancelled : ℕ → Bool
  ipString : Inet → String
  rowOrder : List Server → List Server
  rowOrder_perm : ∀ rows, (rowOrder rows).Perm rows
  mapOrder : List (String × Bool) → List (String × Bool)
  mapOrder_perm : ∀ entries, (mapOrder entries).Perm entries

variable (w : Watch) (cl : Cluster)

/-- The printed addresses of the rows, each with whether it was updated. Two addresses that are
printed alike share a key. -/
def serversMap (servers : List Server) : List (String × Bool) :=
  (servers.map fun s => w.ipString s.ipAddress).dedup.map fun key => (key, false)

/-- The assignment of `true` under a key. -/
def setUpdated (host : String) (entries : List (String × Bool)) : List (String × Bool) :=
  if entries.any fun e => decide (e.1 = host) then
    updateWhere (fun e => decide (e.1 = host)) (fun e => (e.1, true)) entries
  else entries ++ [(host, true)]

def updateMember (r : Db × List (String × Bool)) (x : Member × ℕ) : Db × List (String × Bool) :=
  match if w.fails (.updateServer x.2) then none
    else updateServer w.pg (x.1.request cl.clusterID) r.1 with
  | none => r
  | some d => (d, setUpdated x.1.host r.2)

def healthyServers (info : ClusterInfo) : ℕ :=
  info.members.countP fun m => decide (m.state = stateRunning ∨ m.state = stateStreaming)

def statusFor (info : ClusterInfo) : String :=
  if info.members.length < cl.serverCount then clusterStatusDegraded
  else if healthyServers info < cl.serverCount then clusterStatusUnhealthy
  else clusterStatusHealthy

def storeStatus (status : String) (flags : Option ℕ) (d : Db) : Db :=
  attempt (w.fails .updateCluster)
    (fun d => (updateCluster w.pg ⟨cl.clusterID, none, some status, flags⟩ d).map Prod.snd) d

/-- The first answer from the n-th server on; the outer option is a cancellation. -/
def poll : ℕ → List Server → Option (Option ClusterInfo)
  | _, [] => some none
  | n, s :: servers =>
    if w.cancelled n then none
    else match w.getClusterInfo s.ipAddress with
      | none => poll (n + 1) servers
      | some info => some (some info)

def resetUnknown (d : Db) (entry : String × Bool) : Db :=
  if entry.2 then d
  else attempt (w.fails (.resetServer entry.1)) (resetServer w.pg cl.clusterID entry.1) d

def takeAnswer (info : ClusterInfo) (r : Db × List (String × Bool)) :
    Db × List (String × Bool) :=
  let r := run (updateMember w cl) r info.members.zipIdx
  (storeStatus w cl (statusFor cl info)
    (some (setPatroniConnectStatus (BitVec.ofNat 32 cl.flags) 1).toNat) r.1, r.2)

def handleClusterServers (servers : List Server) (d : Db) : Db :=
  match poll w 0 servers with
  | none => d
  | some (some info) =>
    let r := takeAnswer w cl info (d, serversMap w servers)
    run (resetUnknown w cl) r.1 (w.mapOrder r.2)
  | some none =>
    let d' :=
      if getPatroniConnectStatus (BitVec.ofNat 32 cl.flags) = 1 then
        storeStatus w cl clusterStatusUnavailable none d
      else d
    run (resetUnknown w cl) d' (w.mapOrder (serversMap w servers))

/-- `cl` is the row the caller read, which need not be the stored one any more. -/
def handleCluster (d : Db) : Db :=
  if w.fails .getClusterServers then d
  else handleClusterServers w cl (w.rowOrder (getClusterServers cl.clusterID d)) d

/-! ## The stored status -/

variable {w : Watch} {cl : Cluster} {d d' : Db}

/-- The columns of a cluster but its count. -/
theorem column_rowWrite {β : Type} {g : Cluster → β}
    (hg : ∀ (c : Cluster) (n : ℤ), g { c with serverCount := n } = g c) {i : ℤ}
    (h : RowWrite d d' i) (id : ℤ) : (getCluster id d').map g = (getCluster id d).map g := by
  obtain ⟨servers, n, ht⟩ := h.tables
  exact column_updateWhere (keepsKeys_serverCount _) (fun c => hg c _)
    (congrArg Tables.clusters ht) id

theorem storedClusterStatus_rowWrite {i : ℤ} (h : RowWrite d d' i) (id : ℤ) :
    storedClusterStatus id d' = storedClusterStatus id d :=
  column_rowWrite (fun _ _ => rfl) h id

section Keeps

variable {I : Db → Prop} (hrow : ∀ d d', RowWrite d d' cl.clusterID → I d → I d')
include hrow

theorem updateMember_keeps (r : Db × List (String × Bool)) (x : Member × ℕ) (h : I r.1) :
    I (updateMember w cl r x).1 := by
  rw [updateMember]
  split
  · exact h
  · rename_i d' hd'
    split at hd'
    · cases hd'
    · have hexec : exec w.pg (.updateServer (x.1.request cl.clusterID)) r.1 = some d' := hd'
      exact hrow _ _ (exec_updateServer hexec) h

theorem resetUnknown_keeps (d : Db) (entry : String × Bool) (h : I d) :
    I (resetUnknown w cl d entry) := by
  rw [resetUnknown]
  split
  · exact h
  · refine attempt_keeps h fun d' hreset => ?_
    have hexec : exec w.pg (.resetServer cl.clusterID entry.1) d = some d' := hreset
    exact hrow _ _ (exec_resetServer hexec) h

theorem members_keep (r : Db × List (String × Bool)) (xs : List (Member × ℕ)) (h : I r.1) :
    I (run (updateMember w cl) r xs).1 :=
  run_of (I := fun t : Db × List (String × Bool) => I t.1) (updateMember_keeps hrow) h xs

theorem resets_keep (d : Db) (entries : List (String × Bool)) (h : I d) :
    I (run (resetUnknown w cl) d entries) :=
  run_of (resetUnknown_keeps hrow) h entries

end Keeps

theorem storeStatus_keeps {I : Db → Prop} {status : String} {flags : Option ℕ}
    (hstatus : ∀ d d' c,
      updateCluster w.pg ⟨cl.clusterID, none, some status, flags⟩ d = some (c, d') → I d → I d')
    (d : Db) (h : I d) : I (storeStatus w cl status flags d) :=
  attempt_cluster_keeps h fun c d' hu => hstatus d d' c hu h

/-- What the writes of server rows and of the status keep, a look keeps. -/
theorem handleCluster_keeps {I : Db → Prop}
    (hrow : ∀ d d', RowWrite d d' cl.clusterID → I d → I d')
    (hstatus : ∀ status flags d d' c,
      (∀ n ∈ flags, n = (setPatroniConnectStatus (BitVec.ofNat 32 cl.flags) 1).toNat) →
      updateCluster w.pg ⟨cl.clusterID, none, some status, flags⟩ d = some (c, d') → I d → I d')
    (d : Db) (h : I d) : I (handleCluster w cl d) := by
  rw [handleCluster]
  split
  · exact h
  · rw [handleClusterServers]
    split
    · exact h
    · rename_i info _
      apply resets_keep hrow
      apply storeStatus_keeps fun t t' c => hstatus _ _ t t' c (by simp)
      exact members_keep hrow _ _ h
    · apply resets_keep hrow
      split
      · exact storeStatus_keeps (fun t t' c => hstatus _ _ t t' c (by simp)) d h
      · exact h

theorem handleCluster_answered {info : ClusterInfo} (hfails : ∀ c, w.fails c = false)
    (hanswer : poll w 0 (w.rowOrder (getClusterServers cl.clusterID d)) = some (some info)) :
    handleCluster w cl d =
      let r := takeAnswer w cl info
        (d, serversMap w (w.rowOrder (getClusterServers cl.clusterID d)))
      run (resetUnknown w cl) r.1 (w.mapOrder r.2) := by
  rw [handleCluster, hfails, if_neg Bool.false_ne_true, handleClusterServers, hanswer]

theorem storedClusterStatus_resets (id : ℤ) (d : Db) (entries : List (String × Bool)) :
    storedClusterStatus id (run (resetUnknown w cl) d entries) = storedClusterStatus id d :=
  resets_keep (I := fun t => storedClusterStatus id t = storedClusterStatus id d)
    (fun _ _ hw h => (storedClusterStatus_rowWrite hw id).trans h) d entries rfl

theorem storedClusterStatus_members (id : ℤ) (r : Db × List (String × Bool))
    (xs : List (Member × ℕ)) :
    storedClusterStatus id (run (updateMember w cl) r xs).1 = storedClusterStatus id r.1 :=
  members_keep (I := fun t => storedClusterStatus id t = storedClusterStatus id r.1)
    (fun _ _ hw h => (storedClusterStatus_rowWrite hw id).trans h) r xs rfl

theorem mem_clusterID_of_status {id : ℤ} (h : (storedClusterStatus id d).isSome) :
    id ∈ d.clusters.map Cluster.clusterID := by
  rw [mem_clusterID]
  simpa [storedClusterStatus] using h

theorem storedClusterStatus_storeStatus {status : String} {flags : Option ℕ}
    (hf : w.fails .updateCluster = false) (hc : (storedClusterStatus cl.clusterID d).isSome)
    (ht : textIn status = true) :
    storedClusterStatus cl.clusterID (storeStatus w cl status flags d) = some status := by
  rw [storeStatus, hf]
  exact storedClusterStatus_updateCluster (mem_clusterID_of_status hc) ht

theorem textIn_statusFor (cl : Cluster) (info : ClusterInfo) :
    textIn (statusFor cl info) = true := by
  rw [statusFor]
  split
  · decide
  · split <;> decide

theorem poll_uncancelled (h : ∀ n, w.cancelled n = false) (n : ℕ) (servers : List Server) :
    poll w n servers = some (servers.findSome? fun s => w.getClusterInfo s.ipAddress) := by
  induction servers generalizing n with
  | nil => rfl
  | cons s servers ih =>
    rw [poll, h n, List.findSome?_cons]
    cases w.getClusterInfo s.ipAddress with
    | none => simpa using ih (n + 1)
    | some info => rfl

/-- A look that nothing disturbs stores the status of the first answer. -/
theorem status_handleCluster (hfails : ∀ c, w.fails c = false)
    (hcancelled : ∀ n, w.cancelled n = false) (hc : (storedClusterStatus cl.clusterID d).isSome) :
    storedClusterStatus cl.clusterID (handleCluster w cl d) =
      match (w.rowOrder (getClusterServers cl.clusterID d)).findSome?
          fun s => w.getClusterInfo s.ipAddress with
      | some info => some (statusFor cl info)
      | none =>
        if getPatroniConnectStatus (BitVec.ofNat 32 cl.flags) = 1 then
          some clusterStatusUnavailable
        else storedClusterStatus cl.clusterID d := by
  rw [handleCluster, if_neg (by simp [hfails]), handleClusterServers, poll_uncancelled hcancelled]
  cases (w.rowOrder (getClusterServers cl.clusterID d)).findSome?
      fun s => w.getClusterInfo s.ipAddress with
  | some info =>
    simp only [storedClusterStatus_resets, takeAnswer]
    apply storedClusterStatus_storeStatus (hfails _)
    · rwa [storedClusterStatus_members]
    · exact textIn_statusFor cl info
  | none =>
    simp only [storedClusterStatus_resets]
    split
    · exact storedClusterStatus_storeStatus (hfails _) hc (by decide)
    · rfl

/-! ## A cluster of one server -/

theorem perm_id {α : Type} (rows : List α) : (id rows).Perm rows := List.Perm.refl rows

/-- Nothing disturbs the look, and every server gives the same answer. -/
def calm (answer : Option ClusterInfo) : Watch where
  pg := acceptAll
  getClusterInfo := fun _ => answer
  fails := fun _ => false
  cancelled := fun _ => false
  ipString := id
  rowOrder := id
  rowOrder_perm := perm_id
  mapOrder := id
  mapOrder_perm := perm_id

def runningMember (host : String) : Member :=
  ⟨"node", "replica", stateRunning, host, 1, none, none, false⟩

def importedCluster : Cluster :=
  { deployRequest.row 1 0 with clusterStatus := clusterStatusReady, serverCount := 1 }

def importedTables : Tables :=
  { migrated.toTables with
    clusters := [importedCluster]
    servers := [⟨1, 1, "node", none, some "N/A", some "N/A", "10.0.0.1", none, none, none,
      some false⟩]
    nextClusterID := 2
    nextServerID := 2 }

theorem importedTables_ok : Constraints importedTables := by decide

/-- A deployed cluster before the watcher has looked at it. -/
def imported : Db := ⟨importedTables, importedTables_ok⟩

end ConsoleHandleCluster
