import Autobase.ConsoleStatements
import Autobase.ConsoleLogEntity
import Autobase.TransitionRuns

/-! # The log watcher

A pass takes the operations in progress, reads the log of every finished container, stores
the outcome and removes the container. Errors of the storage are logged and not returned. -/
namespace ConsoleLogWatcher

open ConsoleSchema ConsoleStatements ConsoleLogEntity RowTables TransitionRuns JsonText

def logFieldSystemInfo : String := "System info"
def logFieldConnectionInfo : String := "vitabaks.autobase.deploy_finish : Connection info"

/-- The storage calls of `collectContainerLog`; entries of the log count from zero. -/
inductive Call where
  | getCluster
  | createServer (entry : ℕ)
  | updateConnectionInfo (entry : ℕ)
  | updateOperation
  | updateClusterStatus
  deriving DecidableEq

structure SystemInfo where
  serverLocation : Option String
  serverName : String
  ipAddress : String

/-- What the watcher is configured with: the database, the log directory and the decoding of
a message into a struct, which is a library's. -/
structure Setup where
  pg : Postgres
  logDir : String
  decodeSystemInfo : Option Json → Option SystemInfo

/-- What happens around one collection: the calls that fail and the files that can be read. -/
structure Conditions where
  fails : Call → Bool
  files : String → Option (List Char)

variable (S : Setup) (w : Conditions)

def storeStatuses (op : Operation) (operationStatus clusterStatus : String) (d : Db) : Db :=
  attempt (w.fails .updateClusterStatus)
    (fun d => (updateCluster S.pg ⟨op.clusterID, none, some clusterStatus, none⟩ d).map Prod.snd)
    (attempt (w.fails .updateOperation)
      (updateOperation ⟨op.id, some operationStatus, none⟩) d)

def markClusterStatusFailed (op : Operation) (d : Db) : Db :=
  storeStatuses S w op operationStatusFailed clusterStatusFailed d

/-- The write one entry asks for; `none` continues with the next entry. -/
def writeEntry (cluster : Cluster) (op : Operation) (x : LogEntity × ℕ) (d : Db) : Option Db :=
  if x.1.task = logFieldSystemInfo then
    (S.decodeSystemInfo x.1.msg).bind fun serverInfo =>
      if w.fails (.createServer x.2) then none
      else (createServer S.pg ⟨cluster.clusterID, serverInfo.serverName,
        serverInfo.serverLocation, serverInfo.ipAddress⟩ d).map Prod.snd
  else if x.1.task = logFieldConnectionInfo then
    if w.fails (.updateConnectionInfo x.2) then none
    else (updateCluster S.pg ⟨op.clusterID, x.1.msg, none, none⟩ d).map Prod.snd
  else some d

def collectEntry (cluster : Cluster) (op : Operation) (r : Db × String) (x : LogEntity × ℕ) :
    Db × String :=
  match writeEntry S w cluster op x r.1 with
  | none => r
  | some d => (d, if x.1.summary.isSome then x.1.status else r.2)

def collectEntries (cluster : Cluster) (op : Operation) (d : Db) (logs : List LogEntity) :
    Db × String :=
  run (collectEntry S w cluster op) (d, "") logs.zipIdx

def logPath (cluster : Cluster) : String := S.logDir ++ "/" ++ cluster.clusterName ++ ".json"

def finalStatus (status : String) : String :=
  if status = "" then operationStatusFailed else status

def clusterStatusFor (status : String) : String :=
  if status = operationStatusFailed then clusterStatusFailed else clusterStatusReady

/-- From the decoded log on. -/
def collectLogs (cluster : Cluster) (op : Operation) (logs : List LogEntity) (d : Db) : Db :=
  let r := collectEntries S w cluster op d logs
  storeStatuses S w op (finalStatus r.2) (clusterStatusFor (finalStatus r.2)) r.1

def collectContainerLog (op : Operation) (d : Db) : Db :=
  if w.fails .getCluster then d
  else match getCluster op.clusterID d with
    | none => d
    | some cluster =>
      match (w.files (logPath S cluster)).bind decodeLogs with
      | none => markClusterStatusFailed S w op d
      | some logs => collectLogs S w cluster op logs d

/-! ## Entries -/

/-- The address under which an entry asks for a server, if the insert is attempted and its
values fit. -/
def asksFor (cluster : Cluster) (x : LogEntity × ℕ) : Option Inet :=
  if x.1.task = logFieldSystemInfo then
    (S.decodeSystemInfo x.1.msg).bind fun serverInfo =>
      if w.fails (.createServer x.2) then none
      else storableAddress S.pg ⟨cluster.clusterID, serverInfo.serverName,
        serverInfo.serverLocation, serverInfo.ipAddress⟩
  else none

/-- The address has a row already, or an earlier entry asks for it. -/
def Taken (cluster : Cluster) (d : Db) (logs : List LogEntity) (n : ℕ) (ip : Inet) : Prop :=
  (cluster.clusterID, ip) ∈ d.servers.map Server.key ∨
    ∃ j e, j < n ∧ logs[j]? = some e ∧ asksFor S w cluster (e, j) = some ip

/-- The entries after which the loop goes on without a look at the summary, when `taken` are
the addresses of the cluster that have a row. -/
def SkippedWhen (cluster : Cluster) (taken : Inet → Prop) (x : LogEntity × ℕ) : Prop :=
  if x.1.task = logFieldSystemInfo then
    ∀ ip, asksFor S w cluster x = some ip → taken ip
  else if x.1.task = logFieldConnectionInfo then
    w.fails (.updateConnectionInfo x.2) = true ∨
      UpdateClusterReq.storedInfo S.pg ⟨cluster.clusterID, x.1.msg, none, none⟩ = none
  else False

def Skipped (cluster : Cluster) (d : Db) (logs : List LogEntity) (n : ℕ) (e : LogEntity) : Prop :=
  SkippedWhen S w cluster (Taken S w cluster d logs n) (e, n)

/-- The summaries that reach the status. -/
def Reports (cluster : Cluster) (d : Db) (logs : List LogEntity) (n : ℕ) (e : LogEntity) : Prop :=
  e.summary.isSome ∧ ¬ Skipped S w cluster d logs n e

def HasRow (cluster : Cluster) (r : Db) (ip : Inet) : Prop :=
  (cluster.clusterID, ip) ∈ r.servers.map Server.key

structure Wrote (cluster : Cluster) (x : LogEntity × ℕ) (r r' : Db) : Prop where
  operations : r'.operations = r.operations
  clusters : KeepsClusters r r'
  servers : ∀ ip, HasRow cluster r' ip ↔
    HasRow cluster r ip ∨ asksFor S w cluster x = some ip

/-- The tables after the first `n` entries, and the status they leave. -/
structure Collected (cluster : Cluster) (d : Db) (logs : List LogEntity) (n : ℕ)
    (r : Db × String) : Prop where
  operations : r.1.operations = d.operations
  clusters : KeepsClusters d r.1
  servers : ∀ ip, (cluster.clusterID, ip) ∈ r.1.servers.map Server.key ↔
    Taken S w cluster d logs n ip
  status : (∃ e, LastOf (Reports S w cluster d logs) logs n e ∧ r.2 = e.status) ∨
    ((∀ e, ¬ LastOf (Reports S w cluster d logs) logs n e) ∧ r.2 = "")

variable {S : Setup} {w : Conditions} {cluster : Cluster} {op : Operation} {d : Db}
  {logs : List LogEntity} {n : ℕ}

theorem taken_succ {e : LogEntity} (he : logs[n]? = some e) {ip : Inet} :
    Taken S w cluster d logs (n + 1) ip ↔
      Taken S w cluster d logs n ip ∨ asksFor S w cluster (e, n) = some ip := by
  constructor
  · rintro (h | ⟨j, e', hj, hj', ha⟩)
    · exact Or.inl (Or.inl h)
    · rcases Nat.lt_succ_iff_lt_or_eq.mp hj with hj | rfl
      · exact Or.inl (Or.inr ⟨j, e', hj, hj', ha⟩)
      · obtain rfl := Option.some.inj (hj'.symm.trans he)
        exact Or.inr ha
  · rintro ((h | ⟨j, e', hj, hj', ha⟩) | h)
    · exact Or.inl h
    · exact Or.inr ⟨j, e', Nat.lt_succ_of_lt hj, hj', ha⟩
    · exact Or.inr ⟨n, e, Nat.lt_succ_self n, he, h⟩

theorem writeEntry_eq_none {r : Db} {x : LogEntity × ℕ} (hid : cluster.clusterID = op.clusterID)
    (hc : cluster.clusterID ∈ r.clusters.map Cluster.clusterID) :
    writeEntry S w cluster op x r = none ↔ SkippedWhen S w cluster (HasRow cluster r) x := by
  rw [writeEntry, SkippedWhen]
  by_cases hs : x.1.task = logFieldSystemInfo
  · simp only [hs, if_true, asksFor]
    cases S.decodeSystemInfo x.1.msg with
    | none => simp
    | some info =>
      by_cases hf : w.fails (.createServer x.2) = true
      · simp [hf]
      · simp only [Option.bind_some, hf, Bool.false_eq_true, if_false, Option.map_eq_none_iff]
        rw [← Option.not_isSome_iff_eq_none, createServer_isSome]
        simp only [hc, true_and, not_exists, not_and, not_not, HasRow]
  · rw [if_neg hs, if_neg hs]
    by_cases hi : x.1.task = logFieldConnectionInfo
    · rw [if_pos hi, if_pos hi]
      by_cases hf : w.fails (.updateConnectionInfo x.2) = true
      · simp [hf]
      · simp only [hf, if_false, Bool.false_eq_true, false_or, Option.map_eq_none_iff]
        rw [← Option.not_isSome_iff_eq_none, updateCluster_isSome]
        simp [← hid, hc]
    · simp [hi]

theorem writeEntry_wrote {r r' : Db} {x : LogEntity × ℕ}
    (h : writeEntry S w cluster op x r = some r') : Wrote S w cluster x r r' := by
  rw [writeEntry] at h
  by_cases hs : x.1.task = logFieldSystemInfo
  · simp only [hs, if_true, Option.bind_eq_some_iff] at h
    obtain ⟨info, hinfo, h⟩ := h
    by_cases hf : w.fails (.createServer x.2) = true
    · simp [hf] at h
    · simp only [hf, Bool.false_eq_true, if_false, Option.map_eq_some_iff] at h
      obtain ⟨⟨s, d'⟩, hcreate, rfl⟩ := h
      obtain ⟨ip, hip, -, ht⟩ := createServer_eq_some.mp hcreate
      refine ⟨by rw [ht]; rfl, ?_, ?_⟩
      · exact keepsClusters_of_updateWhere (keepsKeys_serverCount _) (congrArg Tables.clusters ht)
      · intro ip'
        have hrows := congrArg Tables.servers ht
        simp only [updateServerCount] at hrows
        simp [HasRow, hrows, asksFor, hs, hinfo, hf, hip, newServer, Server.key, eq_comm]
  · rw [if_neg hs] at h
    by_cases hi : x.1.task = logFieldConnectionInfo
    · rw [if_pos hi] at h
      by_cases hf : w.fails (.updateConnectionInfo x.2) = true
      · simp [hf] at h
      · simp only [hf, if_false, Bool.false_eq_true, Option.map_eq_some_iff] at h
        obtain ⟨⟨c, d'⟩, hupdate, rfl⟩ := h
        obtain ⟨info, -, -, ht, -⟩ := updateCluster_eq_some.mp hupdate
        refine ⟨by rw [ht], ?_, ?_⟩
        · exact keepsClusters_of_updateWhere (keepsKeys_apply _ info) (congrArg Tables.clusters ht)
        · intro ip
          simp [HasRow, ht, asksFor, hs]
    · rw [if_neg hi, Option.some.injEq] at h
      obtain rfl := h
      exact ⟨rfl, rfl, by simp [asksFor, hs]⟩

theorem collected_zero (cluster : Cluster) (d : Db) (logs : List LogEntity) :
    Collected S w cluster d logs 0 (d, "") where
  operations := rfl
  clusters := rfl
  servers := by
    intro ip
    simp [Taken]
  status := Or.inr ⟨fun _ => not_lastOf_zero, rfl⟩

theorem collected_succ {e : LogEntity} {r : Db × String} (he : logs[n]? = some e)
    (hid : cluster.clusterID = op.clusterID)
    (hc : cluster.clusterID ∈ d.clusters.map Cluster.clusterID)
    (h : Collected S w cluster d logs n r) :
    Collected S w cluster d logs (n + 1) (collectEntry S w cluster op r (e, n)) := by
  have hrows : HasRow cluster r.1 = Taken S w cluster d logs n := by
    funext ip
    exact propext (h.servers ip)
  have hskip := writeEntry_eq_none (S := S) (w := w) (x := (e, n)) hid (h.clusters.ids ▸ hc)
  rw [hrows] at hskip
  rw [collectEntry]
  cases hw : writeEntry S w cluster op (e, n) r.1 with
  | none =>
    have hs : Skipped S w cluster d logs n e := hskip.mp hw
    have hr : ¬ Reports S w cluster d logs n e := fun hr => hr.2 hs
    refine ⟨h.operations, h.clusters, ?_, ?_⟩
    · intro ip
      rw [taken_succ he, h.servers ip]
      constructor
      · exact Or.inl
      · rintro (ht | ha)
        · exact ht
        · -- the address was refused because it has a row
          by_cases hsys : e.task = logFieldSystemInfo
          · simp only [Skipped, SkippedWhen, hsys, if_true] at hs
            exact hs ip ha
          · simp [asksFor, hsys] at ha
    · simpa only [lastOf_succ_of_neg he hr] using h.status
  | some r' =>
    have hs : ¬ Skipped S w cluster d logs n e := fun hs => by simp [hskip.mpr hs] at hw
    have hwrote := writeEntry_wrote hw
    refine ⟨hwrote.operations.trans h.operations, h.clusters.trans hwrote.clusters, ?_, ?_⟩
    · intro ip
      rw [taken_succ he, ← h.servers ip]
      exact hwrote.servers ip
    · by_cases hsum : e.summary.isSome = true
      · have hr : Reports S w cluster d logs n e := ⟨hsum, hs⟩
        simp only [lastOf_succ_of_pos he hr, hsum, if_true]
        exact Or.inl ⟨e, rfl, rfl⟩
      · have hr : ¬ Reports S w cluster d logs n e := fun hr => hsum hr.1
        simp only [lastOf_succ_of_neg he hr, hsum, Bool.false_eq_true, if_false]
        exact h.status

theorem collected_entries (hid : cluster.clusterID = op.clusterID)
    (hc : cluster.clusterID ∈ d.clusters.map Cluster.clusterID) :
    Collected S w cluster d logs logs.length
      (collectEntries S w cluster op d logs) := by
  have hrun : Collected S w cluster d logs logs.zipIdx.length
      (run (collectEntry S w cluster op) (d, "") logs.zipIdx) := by
    apply run_indexed (P := fun n r => Collected S w cluster d logs n r)
    · exact collected_zero cluster d logs
    · intro n x r hx hr
      rw [List.getElem?_zipIdx] at hx
      obtain ⟨e, he, rfl⟩ := Option.map_eq_some_iff.mp hx
      rw [Nat.zero_add]
      exact collected_succ he hid hc hr
  rwa [List.length_zipIdx] at hrun

/-! ## The outcome of a collection -/

/-- The statuses from which the outcome of a log is a final one. -/
def knownStatuses : List String := ["", operationStatusSuccess, operationStatusFailed]

def FinalOutcome (status : String) : Prop :=
  status = operationStatusSuccess ∨ status = operationStatusFailed

theorem finalOutcome_iff (status : String) :
    FinalOutcome (finalStatus status) ↔ status ∈ knownStatuses := by
  by_cases h : status = ""
  · simp [FinalOutcome, finalStatus, knownStatuses, h]
  · simp [FinalOutcome, finalStatus, knownStatuses, h]

theorem mem_operationStatuses (status : String) :
    status ∈ operationStatuses ∧ status ≠ operationStatusInProgress ↔ FinalOutcome status := by
  simp only [operationStatuses, List.mem_cons, List.not_mem_nil, or_false, FinalOutcome]
  constructor
  · rintro ⟨rfl | rfl | rfl, hne⟩
    · exact absurd rfl hne
    · exact Or.inl rfl
    · exact Or.inr rfl
  · rintro (rfl | rfl)
    · exact ⟨Or.inr (Or.inl rfl), by decide⟩
    · exact ⟨Or.inr (Or.inr rfl), by decide⟩

/-- The summary that decides, if there is one, carries a known status. -/
def KnownSummary (S : Setup) (w : Conditions) (cluster : Cluster) (d : Db)
    (logs : List LogEntity) : Prop :=
  ∀ e, LastOf (Reports S w cluster d logs) logs logs.length e → e.status ∈ knownStatuses

theorem collected_known (hid : cluster.clusterID = op.clusterID)
    (hc : cluster.clusterID ∈ d.clusters.map Cluster.clusterID) :
    FinalOutcome (finalStatus (collectEntries S w cluster op d logs).2) ↔
      KnownSummary S w cluster d logs := by
  have hr : Collected S w cluster d logs logs.length (collectEntries S w cluster op d logs) :=
    collected_entries hid hc
  rw [finalOutcome_iff]
  rcases hr.status with ⟨e, he, hs⟩ | ⟨hnone, hs⟩
  · rw [hs]
    constructor
    · intro hk e' he'
      rwa [he'.unique he]
    · intro hk
      exact hk e he
  · rw [hs]
    constructor
    · intro _ e he
      exact absurd he (hnone e)
    · intro _
      simp [knownStatuses]

/-- What a collection tries to store, and the tables it has at that time. -/
def outcome (S : Setup) (w : Conditions) (cluster : Cluster) (op : Operation) (d : Db) :
    Db × String :=
  match (w.files (logPath S cluster)).bind decodeLogs with
  | none => (d, operationStatusFailed)
  | some logs =>
    ((collectEntries S w cluster op d logs).1,
      finalStatus (collectEntries S w cluster op d logs).2)

theorem collect_eq (hf : w.fails .getCluster = false)
    (hc : getCluster op.clusterID d = some cluster) :
    collectContainerLog S w op d =
      storeStatuses S w op (outcome S w cluster op d).2
        (clusterStatusFor (outcome S w cluster op d).2) (outcome S w cluster op d).1 := by
  rw [collectContainerLog, outcome]
  simp only [hf, Bool.false_eq_true, if_false, hc]
  cases (w.files (logPath S cluster)).bind decodeLogs with
  | none => simp [markClusterStatusFailed, clusterStatusFor]
  | some logs => rfl

theorem cluster_of_getCluster {id : ℤ} (hc : getCluster id d = some cluster) :
    cluster.clusterID = id ∧ cluster.clusterID ∈ d.clusters.map Cluster.clusterID := by
  have hid : cluster.clusterID = id := by simpa using List.find?_some hc
  exact ⟨hid, List.mem_map_of_mem (List.mem_of_find?_eq_some hc)⟩

theorem outcome_frame (hc : getCluster op.clusterID d = some cluster) :
    (outcome S w cluster op d).1.operations = d.operations ∧
      KeepsClusters d (outcome S w cluster op d).1 := by
  obtain ⟨hid, hm⟩ := cluster_of_getCluster hc
  rw [outcome]
  cases (w.files (logPath S cluster)).bind decodeLogs with
  | none => exact ⟨rfl, rfl⟩
  | some logs =>
    have hr : Collected S w cluster d logs logs.length (collectEntries S w cluster op d logs) :=
      collected_entries hid hm
    exact ⟨hr.operations, hr.clusters⟩

theorem storedStatus_outcome (hc : getCluster op.clusterID d = some cluster) (id : ℤ) :
    getOperation id (outcome S w cluster op d).1 = getOperation id d := by
  simp only [getOperation, (outcome_frame hc).1]

theorem storedStatus_collect (ho : (getOperation op.id d).isSome)
    (hc : getCluster op.clusterID d = some cluster) :
    storedStatus op.id (collectContainerLog S w op d) =
      if w.fails .getCluster = false ∧ w.fails .updateOperation = false ∧
        (outcome S w cluster op d).2 ∈ operationStatuses then
        some (outcome S w cluster op d).2
      else storedStatus op.id d := by
  cases hf : w.fails .getCluster with
  | true => simp [collectContainerLog, hf]
  | false =>
    have hg := storedStatus_outcome (S := S) (w := w) hc op.id
    rw [collect_eq hf hc, storeStatuses, storedStatus_attempt_cluster,
      storedStatus_updateOperation (hg ▸ ho)]
    simp only [true_and, storedStatus, hg]

/-- A collection writes one operation. -/
theorem storedStatus_collect_other {id : ℤ} (hne : id ≠ op.id) :
    storedStatus id (collectContainerLog S w op d) = storedStatus id d := by
  cases hf : w.fails .getCluster with
  | true => simp [collectContainerLog, hf]
  | false =>
    cases hc : getCluster op.clusterID d with
    | none => simp [collectContainerLog, hf, hc]
    | some cluster =>
      rw [collect_eq hf hc, storeStatuses, storedStatus_attempt_cluster,
        storedStatus_other hne]
      simp only [storedStatus, storedStatus_outcome hc]

/-- No collection adds, drops or renames a cluster. -/
theorem keepsClusters_collect (S : Setup) (w : Conditions) (op : Operation) (d : Db) :
    KeepsClusters d (collectContainerLog S w op d) := by
  cases hf : w.fails .getCluster with
  | true => simp [collectContainerLog, hf, KeepsClusters]
  | false =>
    cases hc : getCluster op.clusterID d with
    | none => simp [collectContainerLog, hf, hc, KeepsClusters]
    | some cluster =>
      rw [collect_eq hf hc, storeStatuses]
      exact (outcome_frame hc).2.trans ((keepsClusters_attempt_operation _ _).trans
        (keepsClusters_attempt_cluster _ _))

/-- Nor does one give an operation another cluster or container. -/
theorem keepsOperations_collect (S : Setup) (w : Conditions) (op : Operation) (d : Db) :
    KeepsOperations d (collectContainerLog S w op d) := by
  cases hf : w.fails .getCluster with
  | true => simp [collectContainerLog, hf, KeepsOperations]
  | false =>
    cases hc : getCluster op.clusterID d with
    | none => simp [collectContainerLog, hf, hc, KeepsOperations]
    | some cluster =>
      have hframe := (outcome_frame (S := S) (w := w) hc).1
      rw [collect_eq hf hc, storeStatuses, KeepsOperations, operations_attempt_cluster]
      refine attempt_keeps (I := KeepsOperations d) (congrArg _ hframe) fun d' hu => ?_
      obtain ⟨-, -, -, ht⟩ := updateOperation_eq_some.mp hu
      rw [KeepsOperations, ht, map_updateWhere (assignment_apply _), hframe]

/-- The cluster of the operation gets the status that belongs to the outcome. -/
theorem storedClusterStatus_collect (hg : w.fails .getCluster = false)
    (hu : w.fails .updateClusterStatus = false) (hc : getCluster op.clusterID d = some cluster) :
    storedClusterStatus op.clusterID (collectContainerLog S w op d) =
      some (clusterStatusFor (outcome S w cluster op d).2) := by
  obtain ⟨hid, hm⟩ := cluster_of_getCluster hc
  rw [collect_eq hg hc, storeStatuses, hu, storedClusterStatus_updateCluster]
  · rw [mem_clusterID, getCluster_attempt_operation, ← mem_clusterID, (outcome_frame hc).2.ids, ← hid]
    exact hm
  · rw [clusterStatusFor]
    split <;> decide

theorem getOperation_of_mem (hop : op ∈ d.operations) : getOperation op.id d = some op := by
  obtain ⟨o, ho⟩ : ∃ o, getOperation op.id d = some o := by
    rw [← Option.isSome_iff_exists, getOperation, List.find?_isSome]
    exact ⟨op, hop, by simp⟩
  have hid : o.id = op.id := by simpa using List.find?_some ho
  rw [ho, eq_of_key_eq d.ok.operations_pkey (List.mem_of_find?_eq_some ho) hop hid]

/-- The two statuses agree and the operation is over. -/
structure Consistent (op : Operation) (d : Db) : Prop where
  final : storedStatus op.id d = some operationStatusSuccess ∨
    storedStatus op.id d = some operationStatusFailed
  ready : storedClusterStatus op.clusterID d = some clusterStatusReady ↔
    storedStatus op.id d = some operationStatusSuccess
  failed : storedClusterStatus op.clusterID d = some clusterStatusFailed ↔
    storedStatus op.id d = some operationStatusFailed

/-- Where no call fails but on a constraint, a decoded log leaves consistent statuses exactly
when the summary that decides carries a known status. -/
theorem collect_consistent_iff {files : String → Option (List Char)} (hop : op ∈ d.operations)
    (hs : op.operationStatus = operationStatusInProgress)
    (hc : getCluster op.clusterID d = some cluster)
    (hlog : (files (logPath S cluster)).bind decodeLogs = some logs) :
    Consistent op (collectContainerLog S ⟨fun _ => false, files⟩ op d) ↔
      KnownSummary S ⟨fun _ => false, files⟩ cluster d logs := by
  obtain ⟨hid, hm⟩ := cluster_of_getCluster hc
  have hget := getOperation_of_mem hop
  have hstored : storedStatus op.id d = some operationStatusInProgress := by
    rw [storedStatus, hget, Option.map_some, hs]
  have hout : (outcome S ⟨fun _ => false, files⟩ cluster op d).2 =
      finalStatus (collectEntries S ⟨fun _ => false, files⟩ cluster op d logs).2 := by
    simp only [outcome, hlog]
  have hop' := storedStatus_collect (S := S) (w := ⟨fun _ => false, files⟩) (hget ▸ rfl) hc
  have hcl := storedClusterStatus_collect (S := S) (w := ⟨fun _ => false, files⟩) rfl rfl hc
  rw [hout] at hop' hcl
  rw [← collected_known hid hm]
  simp only [true_and, hstored] at hop'
  constructor
  · intro h
    by_contra hn
    rcases h.final with hf | hf
    all_goals
      rw [hop'] at hf
      split at hf
      · have := Option.some.inj hf
        simp [FinalOutcome, this] at hn
      · exact absurd (Option.some.inj hf) (by decide)
  · intro h
    have hmem := ((mem_operationStatuses _).mpr h).1
    rw [if_pos hmem] at hop'
    rcases h with h | h
    · rw [h] at hop' hcl
      exact ⟨Or.inl hop', by simp [hop', hcl]; decide, by simp [hop', hcl]; decide⟩
    · rw [h] at hop' hcl
      exact ⟨Or.inr hop', by simp [hop', hcl]; decide, by simp [hop', hcl]; decide⟩

def plainSetup : Setup := ⟨acceptAll, "/tmp/ansible", fun _ => none⟩

def summaryLog (status : String) : List Char :=
  "[\x7b\"summary\": \x7b\x7d, \"status\": \"".toList ++ (status.toList ++ "\"\x7d]".toList)

/-- The file of the cluster under deployment. -/
def onlyFile (text : List Char) (path : String) : Option (List Char) :=
  if path = logPath plainSetup (deployRequest.row 1 0) then some text else none

theorem onlyFile_logPath (text : List Char) :
    onlyFile text (logPath plainSetup (deployRequest.row 1 0)) = some text := by
  rw [onlyFile, if_pos rfl]

theorem success_log_consistent :
    ∃ logs, decodeLogs (summaryLog "success") = some logs ∧
      (Consistent deployOperation (collectContainerLog plainSetup
          ⟨fun _ => false, onlyFile (summaryLog "success")⟩ deployOperation deploying) ↔
        KnownSummary plainSetup ⟨fun _ => false, onlyFile (summaryLog "success")⟩
          (deployRequest.row 1 0) deploying logs) := by
  have hsome : (decodeLogs (summaryLog "success")).isSome = true := by decide +kernel
  obtain ⟨logs, hlog⟩ := Option.isSome_iff_exists.mp hsome
  have hc : getCluster deployOperation.clusterID deploying = some (deployRequest.row 1 0) := rfl
  have hfile : (onlyFile (summaryLog "success")
      (logPath plainSetup (deployRequest.row 1 0))).bind decodeLogs = some logs := by
    rw [onlyFile_logPath, Option.bind_some, hlog]
  exact ⟨logs, hlog, collect_consistent_iff (List.mem_singleton.mpr rfl) rfl hc hfile⟩

/-- The CHECK constraint refuses the status and the cluster becomes ready nevertheless. -/
theorem unknown_status_inconsistent :
    (decodeLogs (summaryLog "partial")).isSome ∧
      ¬ Consistent deployOperation (collectContainerLog plainSetup
        ⟨fun _ => false, onlyFile (summaryLog "partial")⟩ deployOperation deploying) := by
  refine ⟨by decide +kernel, fun h => ?_⟩
  exact absurd h.final (by decide +kernel)

end ConsoleLogWatcher
