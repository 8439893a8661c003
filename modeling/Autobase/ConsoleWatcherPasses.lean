import Autobase.ConsoleLogWatcher

/-! # Passes of the log watcher

The container of a finished operation is removed after its log was collected, whatever the
collection did. Between two passes the other parties may change the tables at will. -/
namespace ConsoleWatcherPasses

open ConsoleSchema ConsoleStatements ConsoleLogEntity ConsoleLogWatcher TransitionRuns

def containerStatusExited : String := "exited"
def containerStatusRemoving : String := "removing"
def containerStatusDead : String := "dead"

/-- The surroundings of one pass: whether the query fails, what docker reports for each
operation (nothing when GetStatus fails) and the conditions of each collection. -/
structure Pass where
  since : ℕ
  queryFails : Bool
  containerStatus : Operation → Option String
  conditions : Operation → Conditions

def finished (status : Option String) : Bool :=
  status = some containerStatusExited || status = some containerStatusDead ||
    status = some containerStatusRemoving

/-- A call of RemoveContainer, with the status the operation has at that time. -/
structure Removal where
  operation : Operation
  stored : Option String

variable (S : Setup)

def watch (p : Pass) (d : Db) (op : Operation) : Db :=
  if finished (p.containerStatus op) then collectContainerLog S (p.conditions op) op d else d

def removal (p : Pass) (d : Db) (op : Operation) : List Removal :=
  if finished (p.containerStatus op) then [⟨op, storedStatus op.id (watch S p d op)⟩] else []

def operationsOf (p : Pass) (d : Db) : List Operation :=
  if p.queryFails then [] else getInProgressOperations p.since d

def doWork (p : Pass) (d : Db) : Db := run (watch S p) d (operationsOf p d)

/-- A change by others leaves any tables that satisfy the constraints. -/
inductive Action where
  | pass (p : Pass)
  | others (d : Db)

def act (d : Db) : Action → Db
  | .pass p => doWork S p d
  | .others d' => d'

def removals (d : Db) : Action → List Removal
  | .pass p => trace (watch S p) (removal S p) d (operationsOf p d)
  | .others _ => []

/-- The cluster is found, the status is stored, and the log, if there is one, ends in a known
status. -/
structure Settles (S : Setup) (w : Conditions) (op : Operation) (d : Db) : Prop where
  cluster_found : w.fails .getCluster = false
  status_stored : w.fails .updateOperation = false
  status_known : ∀ cluster logs, getCluster op.clusterID d = some cluster →
    (w.files (logPath S cluster)).bind decodeLogs = some logs → KnownSummary S w cluster d logs

def HandlesFinished (p : Pass) (d : Db) (op : Operation) : Prop :=
  finished (p.containerStatus op) → Settles S (p.conditions op) op d

def SettlesAll (d : Db) : Action → Prop
  | .pass p => Along (watch S p) (HandlesFinished S p) d (operationsOf p d)
  | .others _ => True

variable {S : Setup} {p : Pass} {w : Conditions} {op : Operation} {d : Db} {cluster : Cluster}

theorem outcome_settled (hc : getCluster op.clusterID d = some cluster) :
    FinalOutcome (outcome S w cluster op d).2 ↔
      ∀ logs, (w.files (logPath S cluster)).bind decodeLogs = some logs →
        KnownSummary S w cluster d logs := by
  obtain ⟨hid, hm⟩ := cluster_of_getCluster hc
  rw [outcome]
  cases (w.files (logPath S cluster)).bind decodeLogs with
  | none => simp [FinalOutcome]
  | some logs =>
    simp only [Option.some.injEq, forall_eq']
    exact collected_known hid hm

/-- One collection takes the operation out of progress exactly under that condition. -/
theorem collect_settles_iff (ho : (getOperation op.id d).isSome)
    (hc : getCluster op.clusterID d = some cluster)
    (hs : storedStatus op.id d = some operationStatusInProgress) :
    storedStatus op.id (collectContainerLog S w op d) ≠ some operationStatusInProgress ↔
      Settles S w op d := by
  rw [storedStatus_collect ho hc, hs]
  constructor
  · intro h
    split at h
    · next hstored =>
      obtain ⟨hg, hu, hmem⟩ := hstored
      have hfinal := (mem_operationStatuses _).mp ⟨hmem, fun he => h (congrArg some he)⟩
      refine ⟨hg, hu, ?_⟩
      intro cluster' logs hc' hlog
      obtain rfl := Option.some.inj (hc.symm.trans hc')
      exact (outcome_settled hc).mp hfinal logs hlog
    · exact absurd rfl h
  · rintro ⟨hg, hu, hk⟩
    have hfinal := (outcome_settled hc).mpr fun logs hlog => hk cluster logs hc hlog
    obtain ⟨hmem, hne⟩ := (mem_operationStatuses _).mpr hfinal
    rw [if_pos ⟨hg, hu, hmem⟩]
    exact fun he => hne (Option.some.inj he)

/-- The operations still to come in a pass are in progress, each under its own key. -/
structure Pending (ops : List Operation) (d : Db) : Prop where
  distinct : (ops.map Operation.id).Nodup
  stored : ∀ op ∈ ops, storedStatus op.id d = some operationStatusInProgress
  cluster : ∀ op ∈ ops, op.clusterID ∈ d.clusters.map Cluster.clusterID

theorem clusters_watch (d : Db) (op : Operation) :
    (watch S p d op).clusters.map Cluster.clusterID = d.clusters.map Cluster.clusterID := by
  rw [watch]
  split
  · exact (keepsClusters_collect S _ op d).ids
  · rfl

theorem pending_watch {ops : List Operation} (h : Pending (op :: ops) d) :
    Pending ops (watch S p d op) := by
  have hnodup := List.nodup_cons.mp h.distinct
  refine ⟨hnodup.2, ?_, ?_⟩
  · intro o ho
    have hne : o.id ≠ op.id := fun he => hnodup.1 (he ▸ List.mem_map_of_mem ho)
    rw [watch]
    split
    · rw [storedStatus_collect_other hne]
      exact h.stored o (List.mem_cons_of_mem _ ho)
    · exact h.stored o (List.mem_cons_of_mem _ ho)
  · intro o ho
    rw [clusters_watch]
    exact h.cluster o (List.mem_cons_of_mem _ ho)

theorem pending_operationsOf (p : Pass) (d : Db) : Pending (operationsOf p d) d := by
  rw [operationsOf]
  split
  · exact ⟨List.nodup_nil, by simp, by simp⟩
  · have hsub : (getInProgressOperations p.since d).Sublist d.operations := List.filter_sublist
    refine ⟨d.ok.operations_pkey.sublist (hsub.map _), ?_, ?_⟩
    · intro op hop
      obtain ⟨hmem, hp⟩ := List.mem_filter.mp hop
      have hstatus : op.operationStatus = operationStatusInProgress := (of_decide_eq_true hp).1
      rw [storedStatus, getOperation_of_mem hmem, Option.map_some, hstatus]
    · intro op hop
      exact d.ok.operations_cluster_fkey op (hsub.subset hop)

theorem removal_settled_iff {ops : List Operation} (h : Pending (op :: ops) d) :
    (∀ r ∈ removal S p d op, r.stored ≠ some operationStatusInProgress) ↔
      HandlesFinished S p d op := by
  rw [removal, HandlesFinished]
  by_cases hf : finished (p.containerStatus op) = true
  · have hs := h.stored op List.mem_cons_self
    obtain ⟨cluster, hc⟩ := Option.isSome_iff_exists.mp
      (mem_clusterID.mp (h.cluster op List.mem_cons_self))
    have ho : (getOperation op.id d).isSome := by
      cases hg : getOperation op.id d with
      | none => simp [storedStatus, hg] at hs
      | some o => rfl
    simp only [hf, if_true, List.forall_mem_singleton, watch, forall_const]
    exact collect_settles_iff ho hc hs
  · simp [hf]

/-- In every run, no container is removed under an operation in progress exactly when the
collection of every finished container settles its operation. -/
theorem no_operation_lost_iff (S : Setup) (d : Db) (as : List Action) :
    (∀ r ∈ trace (act S) (removals S) d as, r.stored ≠ some operationStatusInProgress) ↔
      Along (act S) (SettlesAll S) d as := by
  apply trace_iff_along (I := fun _ => True) (fun _ _ _ => trivial)
  · intro d a _
    cases a with
    | others d' => simp [removals, SettlesAll]
    | pass p =>
      exact trace_iff_along_remaining (J := Pending) (fun _ _ _ h => pending_watch h)
        (fun _ _ _ h => removal_settled_iff h) (pending_operationsOf p d)
  · trivial

/-- The lookup of the cluster fails once. -/
def lookupFails : Pass where
  since := 0
  queryFails := false
  containerStatus := fun _ => some containerStatusExited
  conditions := fun _ => ⟨fun c => decide (c = .getCluster), fun _ => none⟩

theorem operation_lost :
    ¬ ∀ r ∈ trace (act plainSetup) (removals plainSetup) deploying [.pass lookupFails],
      r.stored ≠ some operationStatusInProgress := by
  decide +kernel

end ConsoleWatcherPasses
