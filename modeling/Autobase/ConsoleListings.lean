import Autobase.SortedPages
import Autobase.ConsoleClusterPass
import Mathlib.Data.String.Basic

/-! # The listings of the console

Clusters, secrets and operations are listed page by page, in an order the caller may choose. The
order is that of a list of columns, and rows that agree in all of them may come in any order. -/
namespace ConsoleListings

open ConsoleSchema ConsoleClusterPass RowTables PagedReads SortedPages

/-! ## Sorting -/

/-- A value of a sort column. -/
inductive Value where
  | null
  | int (n : ℤ)
  | text (s : String)

/-- Nulls come last. -/
def Value.le (collation : Comparison String) : Value → Value → Bool
  | _, .null => true
  | .null, _ => false
  | .int a, .int b => decide (a ≤ b)
  | .text a, .text b => collation.le a b
  | .int _, .text _ => true
  | .text _, .int _ => false

theorem Value.le_total (collation : Comparison String) (a b : Value) :
    a.le collation b = true ∨ b.le collation a = true := by
  cases a <;> cases b <;> simp only [Value.le, decide_eq_true_eq, or_true, true_or]
  case int a b => exact Int.le_total a b
  case text a b => exact collation.total a b

theorem Value.le_trans (collation : Comparison String) (a b c : Value)
    (hab : a.le collation b = true) (hbc : b.le collation c = true) :
    a.le collation c = true := by
  cases a <;> cases b <;> cases c <;>
    simp only [Value.le, decide_eq_true_eq, Bool.false_eq_true] at hab hbc ⊢
  case int a b c => exact Int.le_trans hab hbc
  case text a b c => exact collation.trans a b c hab hbc

def Value.comparison (collation : Comparison String) : Comparison Value :=
  ⟨Value.le collation, Value.le_total collation, Value.le_trans collation⟩

def Value.ofTime (t : Option ℕ) : Value := t.elim .null fun n => .int n

def Value.ofText (s : Option String) : Value := s.elim .null .text

/-- A term of the clause. -/
structure Term (κ : Type) where
  column : κ
  descending : Bool

section OrderBy

variable {κ α : Type}

/-- A field of `sort_by`; an unknown one is passed over. -/
def sortTerm (convMap : List (String × κ)) (sortBy : List Char) : Option (Term κ) :=
  match sortBy with
  | [] => none
  | '-' :: rest => (convMap.lookup (String.ofList rest)).map fun c => ⟨c, true⟩
  | sortBy => (convMap.lookup (String.ofList sortBy)).map fun c => ⟨c, false⟩

def orderByConverter (sortByFromApi : Option String) (defaultField : Term κ)
    (convMap : List (String × κ)) : List (Term κ) :=
  let orderBy := match sortByFromApi with
    | none => []
    | some s => (s.toList.splitOn ',').filterMap (sortTerm convMap)
  if orderBy.isEmpty then [defaultField] else orderBy

/-- The order of a clause: each term decides among the ties of those before it. A descending
term puts nulls first. -/
def orderOf (collation : Comparison String) (value : κ → α → Value) :
    List (Term κ) → Comparison α
  | [] => .always
  | t :: ts =>
    let c := (Value.comparison collation).on (value t.column)
    (if t.descending then c.desc else c).thenBy (orderOf collation value ts)

variable {collation : Comparison String} {value : κ → α → Value} {ts : List (Term κ)}

/-- Rows that tie under a clause tie in each of its columns. -/
theorem orderOf_ties {a b : α} (hab : (orderOf collation value ts).le a b = true)
    (hba : (orderOf collation value ts).le b a = true) {t : Term κ} (ht : t ∈ ts) :
    (value t.column a).le collation (value t.column b) = true ∧
      (value t.column b).le collation (value t.column a) = true := by
  induction ts with
  | nil => cases ht
  | cons u us ih =>
    obtain ⟨hfirst, hrest⟩ := (Comparison.thenBy_ties _).mp ⟨hab, hba⟩
    rcases List.mem_cons.mp ht with rfl | ht
    · cases hd : t.descending with
      | true =>
        rw [hd, if_pos rfl] at hfirst
        exact ⟨hfirst.2, hfirst.1⟩
      | false =>
        rw [hd, if_neg Bool.false_ne_true] at hfirst
        exact hfirst
    · exact ih hrest.1 hrest.2 ht

/-- A clause with a unique column leaves no ties. -/
theorem tiesTogether_of_key (key : α → ℤ) {rows : List α} (hkeys : (rows.map key).Nodup)
    {t : Term κ} (ht : t ∈ ts) (hvalue : ∀ x, value t.column x = .int (key x)) (limit : ℕ) :
    TiesTogether (orderOf collation value ts) limit rows := by
  apply tiesTogether_of_strict (List.Nodup.of_map key hkeys)
  intro x hx y hy hxy hyx
  obtain ⟨hle, hge⟩ := orderOf_ties hxy hyx ht
  rw [hvalue, hvalue] at hle hge
  have hle : key x ≤ key y := of_decide_eq_true hle
  have hge : key y ≤ key x := of_decide_eq_true hge
  exact eq_of_key_eq hkeys hx hy (Int.le_antisymm hle hge)

end OrderBy

/-! ## Queries -/

/-- The two queries of a listing: the rows, the order and the count. -/
structure Query (α : Type) where
  rows : List α
  order : Comparison α
  count : ℕ

variable {α : Type}

/-- What a listing may answer: a page of some arrangement. -/
def Query.Answers (q : Query α) (limit offset : ℕ) (answer : List α × MetaPagination) : Prop :=
  ∃ l, Arranged q.order q.rows l ∧
    answer = (page limit offset l, ⟨limit, offset, q.count⟩)

/-- Whatever each query chooses, the pages hold every matching row once, and the count is their
number. -/
def Partitions (answer : ℕ → List α × MetaPagination → Prop) (limit : ℕ) (matching : List α) :
    Prop :=
  ∀ answers : ℕ → List α × MetaPagination, (∀ k, answer k (answers k)) →
    (∀ k, (answers k).2.count = matching.length) ∧
      ∀ n, matching.length ≤ n * limit →
        ((List.range n).flatMap fun k => (answers k).1).Perm matching

theorem partitions_iff {q : Query α} {limit : ℕ} (hlimit : 0 < limit)
    (hnodup : q.rows.Nodup) (hcount : q.count = q.rows.length) :
    Partitions (fun k => q.Answers limit (k * limit)) limit q.rows ↔
      TiesTogether q.order limit q.rows := by
  rw [← pages_perm_iff hlimit hnodup]
  constructor
  · intro h choice hchoice
    exact (h (fun k => (page limit (k * limit) (choice k), ⟨limit, k * limit, q.count⟩))
      fun k => ⟨choice k, hchoice k, rfl⟩).2
  · intro h answers hanswers
    choose choice hchoice hpage using hanswers
    refine ⟨fun k => ?_, fun n hn => ?_⟩
    · rw [hpage k]
      exact hcount
    · simp only [hpage]
      exact h choice hchoice n hn

/-! ## Clusters -/

/-- Times the tables hold beside the columns of `ConsoleSchema`, by the key of the row. -/
structure Stamps where
  clusterUpdatedAt : ℤ → Option ℕ
  secretCreatedAt : ℤ → Option ℕ
  secretUpdatedAt : ℤ → Option ℕ
  operationUpdatedAt : ℤ → Option ℕ

inductive ClusterColumn where
  | clusterName
  | clusterID
  | createdAt
  | updatedAt
  | environmentID
  | clusterStatus
  | projectID
  | clusterLocation
  | serverCount
  | postgresVersion

def clusterSortFields : List (String × ClusterColumn) :=
  [("name", .clusterName), ("id", .clusterID), ("created_at", .createdAt),
    ("updated_at", .updatedAt), ("environment", .environmentID), ("status", .clusterStatus),
    ("project", .projectID), ("location", .clusterLocation), ("server_count", .serverCount),
    ("postgres_version", .postgresVersion)]

variable (T : Stamps) (collation : Comparison String)

def clusterValue : ClusterColumn → Cluster → Value
  | .clusterName, c => .text c.clusterName
  | .clusterID, c => .int c.clusterID
  | .createdAt, c => .int c.createdAt
  | .updatedAt, c => .ofTime (T.clusterUpdatedAt c.clusterID)
  | .environmentID, c => .int c.environmentID
  | .clusterStatus, c => .text c.clusterStatus
  | .projectID, c => .int c.projectID
  | .clusterLocation, c => .ofText c.clusterLocation
  | .serverCount, c => .int c.serverCount
  | .postgresVersion, c => .int c.postgresVersion

/-- A request with `sort_by`. -/
structure SortedClustersReq extends GetClustersReq where
  sortBy : Option String := none

def clustersQuery (req : SortedClustersReq) (d : Db) : Query Cluster where
  rows := d.clusters.filter req.selects
  order := orderOf collation (clusterValue T)
    (orderByConverter req.sortBy ⟨.clusterID, false⟩ clusterSortFields)
  count := (d.clusters.filter req.selects).length

def GetClusters (req : SortedClustersReq) (d : Db) (answer : List Cluster × MetaPagination) :
    Prop :=
  (clustersQuery T collation req d).Answers (req.limit.getD defaultLimit) (req.offset.getD 0) answer

/-! ## Secrets -/

/-- A row of `v_secrets_list`. -/
structure SecretView where
  projectID : ℤ
  id : ℤ
  name : String
  type : String
  createdAt : Option ℕ
  updatedAt : Option ℕ
  used : Bool
  usedByClusters : String

inductive SecretColumn where
  | secretName
  | secretID
  | secretType
  | createdAt
  | updatedAt

def secretSortFields : List (String × SecretColumn) :=
  [("name", .secretName), ("id", .secretID), ("type", .secretType), ("created_at", .createdAt),
    ("updated_at", .updatedAt)]

def secretValue : SecretColumn → SecretView → Value
  | .secretName, s => .text s.name
  | .secretID, s => .int s.id
  | .secretType, s => .text s.type
  | .createdAt, s => .ofTime s.createdAt
  | .updatedAt, s => .ofTime s.updatedAt

/-- The names of the clusters of the same project that use a secret, in order. -/
def usedBy (s : Secret) (d : Db) : List String :=
  ((d.clusters.filter fun c => decide (c.secretID = some s.secretID ∧ c.projectID = s.projectID)).map
    Cluster.clusterName).insertionSort fun a b => collation.le a b = true

def vSecretsList (d : Db) : List SecretView :=
  d.secrets.map fun s =>
    ⟨s.projectID, s.secretID, s.secretName, s.secretType, T.secretCreatedAt s.secretID,
      T.secretUpdatedAt s.secretID, !(usedBy collation s d).isEmpty,
      String.intercalate ", " (usedBy collation s d)⟩

structure GetSecretsReq where
  projectID : ℤ
  name : Option String := none
  type : Option String := none
  sortBy : Option String := none
  limit : Option ℕ := none
  offset : Option ℕ := none

/-- The where clause over the columns that the table and the view share. -/
def GetSecretsReq.selects (req : GetSecretsReq) (projectID : ℤ) (name type : String) : Bool :=
  decide (projectID = req.projectID) && req.name.all (fun n => decide (name = n)) &&
    req.type.all (fun t => decide (type = t))

/-- The rows come from the view and the count from the table. -/
def secretsQuery (req : GetSecretsReq) (d : Db) : Query SecretView where
  rows := (vSecretsList T collation d).filter fun s => req.selects s.projectID s.name s.type
  order := orderOf collation secretValue
    (orderByConverter req.sortBy ⟨.secretID, false⟩ secretSortFields)
  count := (d.secrets.filter fun s => req.selects s.projectID s.secretName s.secretType).length

def GetSecrets (req : GetSecretsReq) (d : Db) (answer : List SecretView × MetaPagination) : Prop :=
  (secretsQuery T collation req d).Answers (req.limit.getD defaultLimit) (req.offset.getD 0) answer

/-! ## Operations -/

/-- A row of `v_operations`. -/
structure OperationView where
  projectID : ℤ
  clusterID : ℤ
  id : ℤ
  started : ℕ
  finished : Option ℕ
  type : String
  status : String
  cluster : String
  environment : String

inductive OperationColumn where
  | cluster
  | type
  | status
  | id
  | started
  | finished
  | environment

def operationSortFields : List (String × OperationColumn) :=
  [("cluster_name", .cluster), ("type", .type), ("status", .status), ("id", .id),
    ("started", .started), ("finished", .finished), ("cluster", .cluster),
    ("environment", .environment)]

def operationValue : OperationColumn → OperationView → Value
  | .cluster, o => .text o.cluster
  | .type, o => .text o.type
  | .status, o => .text o.status
  | .id, o => .int o.id
  | .started, o => .int o.started
  | .finished, o => .ofTime o.finished
  | .environment, o => .text o.environment

/-- The joins of the view for one operation. -/
def operationRows (d : Db) (op : Operation) : List OperationView :=
  (d.clusters.filter fun cl => decide (op.clusterID = cl.clusterID)).flatMap fun cl =>
    (d.projects.filter fun pr => decide (op.projectID = pr.projectID)).flatMap fun _ =>
      (d.environments.filter fun env => decide (cl.environmentID = env.environmentID)).map fun env =>
        ⟨op.projectID, op.clusterID, op.id, op.createdAt, T.operationUpdatedAt op.id,
          op.operationType, op.operationStatus, cl.clusterName, env.environmentName⟩

def vOperations (d : Db) : List OperationView := d.operations.flatMap (operationRows T d)

structure GetOperationsReq where
  projectID : ℤ
  startedFrom : ℕ
  endedTill : ℕ
  clusterName : Option String := none
  type : Option String := none
  status : Option String := none
  environment : Option String := none
  sortBy : Option String := none
  limit : Option ℕ := none
  offset : Option ℕ := none

/-- The where clause. No time is before a bound when it is null. -/
def GetOperationsReq.selects (req : GetOperationsReq) (o : OperationView) : Bool :=
  decide (o.projectID = req.projectID) && decide (req.startedFrom ≤ o.started) &&
    o.finished.any (fun t => decide (t ≤ req.endedTill)) &&
    req.clusterName.all (fun name => decide (o.cluster = name)) &&
    req.type.all (fun type => decide (o.type = type)) &&
    req.status.all (fun status => decide (o.status = status)) &&
    req.environment.all (fun name => decide (o.environment = name))

def operationsQuery (req : GetOperationsReq) (d : Db) : Query OperationView where
  rows := (vOperations T d).filter req.selects
  order := orderOf collation operationValue
    (orderByConverter req.sortBy ⟨.id, true⟩ operationSortFields)
  count := ((vOperations T d).filter req.selects).length

def GetOperations (req : GetOperationsReq) (d : Db)
    (answer : List OperationView × MetaPagination) : Prop :=
  (operationsQuery T collation req d).Answers (req.limit.getD defaultLimit) (req.offset.getD 0)
    answer

/-! ## What the listings read -/

variable {d : Db}

theorem nodup_clustersQuery (req : SortedClustersReq) (d : Db) :
    (clustersQuery T collation req d).rows.Nodup :=
  (List.Nodup.of_map _ d.ok.clusters_pkey).filter _

theorem nodup_secretsQuery (req : GetSecretsReq) (d : Db) :
    (secretsQuery T collation req d).rows.Nodup := by
  apply List.Nodup.filter
  apply List.Nodup.of_map SecretView.id
  rw [vSecretsList, List.map_map]
  exact d.ok.secrets_pkey

/-- The view has the rows of the table, with the columns that are filtered. -/
theorem count_secretsQuery (req : GetSecretsReq) (d : Db) :
    (secretsQuery T collation req d).count = (secretsQuery T collation req d).rows.length := by
  simp only [secretsQuery, vSecretsList, List.filter_map, List.length_map]
  rfl

theorem filter_key_eq {β γ : Type} [DecidableEq γ] {g : β → γ} {rows : List β}
    (h : (rows.map g).Nodup) {k : γ} (hk : k ∈ rows.map g) :
    ∃ r ∈ rows, g r = k ∧ (rows.filter fun r => decide (k = g r)) = [r] := by
  obtain ⟨r, hr, rfl⟩ := List.mem_map.mp hk
  refine ⟨r, hr, rfl, ?_⟩
  have hnodup : (rows.filter fun s => decide (g r = g s)).Nodup := (List.Nodup.of_map g h).filter _
  have hmem : ∀ s, s ∈ rows.filter (fun s => decide (g r = g s)) ↔ s ∈ [r] := by
    intro s
    simp only [List.mem_filter, decide_eq_true_eq, List.mem_singleton]
    constructor
    · rintro ⟨hs, hg⟩
      exact eq_of_key_eq h hs hr hg.symm
    · rintro rfl
      exact ⟨hr, rfl⟩
  exact List.perm_singleton.mp
    ((List.perm_ext_iff_of_nodup hnodup (List.nodup_singleton r)).mpr hmem)

/-- The joins find one row. -/
theorem operationRows_eq {op : Operation} (hop : op ∈ d.operations) :
    ∃ cl ∈ d.clusters, ∃ env ∈ d.environments, cl.clusterID = op.clusterID ∧
      env.environmentID = cl.environmentID ∧ operationRows T d op =
        [⟨op.projectID, op.clusterID, op.id, op.createdAt, T.operationUpdatedAt op.id,
          op.operationType, op.operationStatus, cl.clusterName, env.environmentName⟩] := by
  obtain ⟨cl, hcl, hid, hclusters⟩ :=
    filter_key_eq d.ok.clusters_pkey (d.ok.operations_cluster_fkey op hop)
  obtain ⟨pr, -, -, hprojects⟩ :=
    filter_key_eq d.ok.projects_pkey (d.ok.operations_project_fkey op hop)
  obtain ⟨env, henv, heid, henvironments⟩ :=
    filter_key_eq d.ok.environments_pkey (d.ok.clusters_environment_fkey cl hcl)
  refine ⟨cl, hcl, env, henv, hid, heid, ?_⟩
  rw [operationRows, hclusters, hprojects]
  simp [henvironments]

theorem ids_vOperations (d : Db) :
    (vOperations T d).map OperationView.id = d.operations.map Operation.id := by
  have hrows : ∀ ops ⊆ d.operations,
      (ops.flatMap (operationRows T d)).map OperationView.id = ops.map Operation.id := by
    intro ops hops
    induction ops with
    | nil => rfl
    | cons op ops ih =>
      obtain ⟨cl, -, env, -, -, -, hrow⟩ := operationRows_eq T (hops List.mem_cons_self)
      rw [List.flatMap_cons, hrow, List.map_append, List.map_cons, List.map_cons,
        ih (fun o ho => hops (List.mem_cons_of_mem op ho))]
      rfl
  exact hrows d.operations (List.Subset.refl _)

theorem nodup_vOperations (d : Db) : (vOperations T d).Nodup := by
  apply List.Nodup.of_map OperationView.id
  rw [ids_vOperations]
  exact d.ok.operations_pkey

theorem nodup_operationsQuery (req : GetOperationsReq) (d : Db) :
    (operationsQuery T collation req d).rows.Nodup :=
  (nodup_vOperations T d).filter _

/-- The listings partition their matching rows exactly when the rows that tie under the order
asked for stand on one page. -/
theorem listings_partition_iff (T : Stamps) (collation : Comparison String) (d : Db) {limit : ℕ}
    (hlimit : 0 < limit) :
    (∀ req : SortedClustersReq,
      Partitions (fun k => GetClusters T collation
          { req with limit := some limit, offset := some (k * limit) } d) limit
          (d.clusters.filter req.selects) ↔
        TiesTogether (clustersQuery T collation req d).order limit
          (d.clusters.filter req.selects)) ∧
    (∀ req : GetSecretsReq,
      Partitions (fun k => GetSecrets T collation
          { req with limit := some limit, offset := some (k * limit) } d) limit
          ((vSecretsList T collation d).filter
            fun s => req.selects s.projectID s.name s.type) ↔
        TiesTogether (secretsQuery T collation req d).order limit
          ((vSecretsList T collation d).filter
            fun s => req.selects s.projectID s.name s.type)) ∧
    ∀ req : GetOperationsReq,
      Partitions (fun k => GetOperations T collation
          { req with limit := some limit, offset := some (k * limit) } d) limit
          ((vOperations T d).filter req.selects) ↔
        TiesTogether (operationsQuery T collation req d).order limit
          ((vOperations T d).filter req.selects) := by
  refine ⟨fun req => ?_, fun req => ?_, fun req => ?_⟩
  · exact partitions_iff hlimit (nodup_clustersQuery T collation req d) rfl
  · exact partitions_iff hlimit (nodup_secretsQuery T collation req d)
      (count_secretsQuery T collation req d)
  · exact partitions_iff hlimit (nodup_operationsQuery T collation req d) rfl

/-- With `id` among the columns asked for, or without any known one, clusters come out whole. -/
theorem clusters_partition_by_id {req : SortedClustersReq} {d : Db} {limit : ℕ}
    (hlimit : 0 < limit) {t : Term ClusterColumn} (hcolumn : t.column = .clusterID)
    (ht : t ∈ orderByConverter req.sortBy ⟨.clusterID, false⟩ clusterSortFields) :
    Partitions (fun k => GetClusters T collation
      { req with limit := some limit, offset := some (k * limit) } d) limit
      (d.clusters.filter req.selects) := by
  apply (partitions_iff hlimit (nodup_clustersQuery T collation req d) rfl).mpr
  apply tiesTogether_of_key Cluster.clusterID ?_ ht
  · intro c
    rw [hcolumn]
    rfl
  · exact d.ok.clusters_pkey.sublist (List.filter_sublist.map _)

/-- The listing of the cluster watcher is one of the answers. -/
theorem getClusters_answers (req : GetClustersReq) (d : Db) :
    GetClusters T collation { req with } d (getClusters req d) := by
  refine ⟨orderBy Cluster.clusterID (d.clusters.filter req.selects), ⟨?_, ?_⟩, rfl⟩
  · exact orderBy_perm _ _
  · apply (orderBy_sorted (d.ok.clusters_pkey.sublist (List.filter_sublist.map _))).imp
    intro a b hab
    have hle : a.clusterID ≤ b.clusterID := Int.le_of_lt hab
    simp [clustersQuery, orderByConverter, orderOf, Comparison.thenBy, Comparison.on,
      Comparison.always, Value.comparison, clusterValue, Value.le, hle]

/-- Times of an example. -/
def noStamps : Stamps := ⟨fun _ => none, fun _ => none, fun _ => none, fun _ => none⟩

theorem two_clusters_by_id : Partitions
    (fun k => GetClusters noStamps (.ofOrder String)
      { projectID := 1, limit := some 1, offset := some (k * 1) } (manyClusters 2)) 1
    ((manyClusters 2).clusters.filter ({ projectID := 1 } : SortedClustersReq).selects) :=
  ((listings_partition_iff noStamps (.ofOrder String) (manyClusters 2) Nat.one_pos).1
    { projectID := 1 }).mpr (by decide +kernel)

/-- Two clusters of one environment, sorted by it and listed one by one: each query may put
either of them first. -/
theorem two_clusters_by_environment : ¬ Partitions
    (fun k => GetClusters noStamps (.ofOrder String)
      { projectID := 1, sortBy := some "environment", limit := some 1, offset := some (k * 1) }
      (manyClusters 2)) 1
    ((manyClusters 2).clusters.filter
      ({ projectID := 1, sortBy := some "environment" } : SortedClustersReq).selects) := by
  intro h
  have hties := (partitions_iff Nat.one_pos (nodup_clustersQuery noStamps (.ofOrder String)
    { projectID := 1, sortBy := some "environment" } (manyClusters 2)) rfl).mp h
  revert hties
  decide +kernel

end ConsoleListings
