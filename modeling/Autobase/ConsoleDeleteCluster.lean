import Autobase.ConsoleRemoveCluster

/-! # DeleteCluster among other calls

Three statements without a transaction. Each of them may fail, and between two of them the
watchers and other requests write rows of the same cluster. -/
namespace ConsoleDeleteCluster

open ConsoleSchema ConsoleStatements ConsoleServerCount ConsoleRemoveCluster
open RowTables TransitionRuns

/-- The other calls of the storage. Those that are left write neither operations nor servers nor
clusters. -/
inductive Call where
  | row (st : Statement)
  | updateCluster (req : UpdateClusterReq)
  | deleteClusterSoft (id : ℤ) (now : ℕ)
  | createOperation (req : CreateOperationReq) (now : ℕ)
  | updateOperation (req : UpdateOperationReq)
  | deleteClusterOperations (id : ℤ)
  | others (f : Tables → Tables)

def othersKept (d : Db) (t : Tables) : Tables :=
  { t with
    clusters := d.clusters
    servers := d.servers
    operations := d.operations
    nextClusterID := d.nextClusterID
    nextServerID := d.nextServerID
    nextOperationID := d.nextOperationID }

def exec (pg : Postgres) (d : Db) : Call → Option Db
  | .row st => ConsoleServerCount.exec pg st d
  | .updateCluster req => (ConsoleSchema.updateCluster pg req d).map Prod.snd
  | .deleteClusterSoft id now => ConsoleSchema.deleteClusterSoft pg id now d
  | .createOperation req now => (ConsoleSchema.createOperation pg req now d).map Prod.snd
  | .updateOperation req => ConsoleSchema.updateOperation req d
  | .deleteClusterOperations id => ConsoleSchema.deleteClusterOperations id d
  | .others f => commit (othersKept d (f d.toTables))

def act (pg : Postgres) (d : Db) (c : Call) : Db := (exec pg d c).getD d

/-- What the call returns, and the calls that ran before it did. -/
structure Outcome where
  db : Db
  error : Option RemoveCall
  others : List Call

/-- `g₁` runs after the operations are deleted and `g₂` after the servers are. -/
def deleteCluster (pg : Postgres) (R : Removal) (id : ℤ) (g₁ g₂ : List Call) (d : Db) : Outcome :=
  match if R.fails .deleteOperations then none else deleteClusterOperations id d with
  | none => ⟨d, some .deleteOperations, []⟩
  | some d =>
    let d := run (act pg) d g₁
    match if R.fails .deleteServers then none else deleteClusterServers id d with
    | none => ⟨d, some .deleteServers, g₁⟩
    | some d =>
      let d := run (act pg) d g₂
      match if R.fails .deleteRow then none else deleteClusterRow id d with
      | none => ⟨d, some .deleteRow, g₁ ++ g₂⟩
      | some d => ⟨d, none, g₁ ++ g₂⟩

/-- The rows of the cluster are there, but for those that another call deletes. -/
structure Intact (id : ℤ) (others : List Call) (d d' : Db) : Prop where
  operations : .deleteClusterOperations id ∉ others →
    ∀ o ∈ d.operations, o.clusterID = id → o.id ∈ d'.operations.map Operation.id
  servers : .row (.deleteClusterServers id) ∉ others →
    ∀ s ∈ d.servers, s.clusterID = id → .row (.deleteServer s.serverID) ∉ others →
      s.serverID ∈ d'.servers.map Server.serverID
  cluster : .row (.deleteClusterRow id) ∉ others →
    ∀ c ∈ d.clusters, c.clusterID = id → id ∈ d'.clusters.map Cluster.clusterID

/-- An operation or a server of the cluster. -/
def Referred (id : ℤ) (d : Db) : Prop :=
  (∃ o ∈ d.operations, o.clusterID = id) ∨ ∃ s ∈ d.servers, s.clusterID = id

structure Gone (id : ℤ) (d : Db) : Prop where
  references : ¬ Referred id d
  cluster : id ∉ d.clusters.map Cluster.clusterID

/-- An error leaves the cluster as it was, and without one nothing is left of it. -/
def Atomic (id : ℤ) (d : Db) (r : Outcome) : Prop :=
  (r.error.isSome → Intact id r.others d r.db) ∧ (r.error = none → Gone id r.db)

/-- The state the last statement finds. -/
def beforeRow (pg : Postgres) (id : ℤ) (g₁ g₂ : List Call) (d : Db) : Db :=
  let d := run (act pg) ((deleteClusterOperations id d).getD d) g₁
  run (act pg) ((deleteClusterServers id d).getD d) g₂

def NoOperations (id : ℤ) (others : List Call) (d : Db) : Prop :=
  .deleteClusterOperations id ∈ others ∨ ∀ o ∈ d.operations, o.clusterID ≠ id

def NoServers (id : ℤ) (others : List Call) (d : Db) : Prop :=
  .row (.deleteClusterServers id) ∈ others ∨
    ∀ s ∈ d.servers, s.clusterID = id → .row (.deleteServer s.serverID) ∈ others

/-- A later statement fails only when the earlier ones had nothing to delete. -/
structure Undivided (pg : Postgres) (R : Removal) (id : ℤ) (g₁ g₂ : List Call) (d : Db) :
    Prop where
  second : R.fails .deleteOperations = false → R.fails .deleteServers = true →
    NoOperations id g₁ d
  third : R.fails .deleteOperations = false → R.fails .deleteServers = false →
    R.fails .deleteRow = true ∨ Referred id (beforeRow pg id g₁ g₂ d) →
    NoOperations id (g₁ ++ g₂) d ∧ NoServers id (g₁ ++ g₂) d

/-- With no other call in between this is the deletion of a request. -/
theorem deleteCluster_alone (pg : Postgres) (R : Removal) (id : ℤ) (d : Db) :
    ((deleteCluster pg R id [] [] d).db, (deleteCluster pg R id [] [] d).error) =
      ConsoleRemoveCluster.deleteCluster R id d := by
  simp only [deleteCluster, ConsoleRemoveCluster.deleteCluster, run_nil]
  cases if R.fails .deleteOperations then none else deleteClusterOperations id d with
  | none => rfl
  | some d₁ =>
    simp only
    cases if R.fails .deleteServers then none else deleteClusterServers id d₁ with
    | none => rfl
    | some d₂ =>
      simp only
      cases if R.fails .deleteRow then none else deleteClusterRow id d₂ <;> rfl

/-! ## The rows of one call -/

def operationKeys (d : Db) : List (ℤ × ℤ) := d.operations.map fun o => (o.id, o.clusterID)

def serverKeys (d : Db) : List (ℤ × ℤ) := d.servers.map fun s => (s.serverID, s.clusterID)

def clusterIDs (d : Db) : List ℤ := d.clusters.map Cluster.clusterID

/-- What calls do to the rows, told by the deletions among them. -/
structure Effect (calls : List Call) (d d' : Db) : Prop where
  operations : Evolves Prod.fst (fun k => .deleteClusterOperations k.2 ∈ calls)
    (operationKeys d) (operationKeys d') d.nextOperationID d'.nextOperationID
  servers : Evolves Prod.fst
    (fun k => .row (.deleteServer k.1) ∈ calls ∨ .row (.deleteClusterServers k.2) ∈ calls)
    (serverKeys d) (serverKeys d') d.nextServerID d'.nextServerID
  clusters : Evolves (fun i => i) (fun i => .row (.deleteClusterRow i) ∈ calls)
    (clusterIDs d) (clusterIDs d') d.nextClusterID d'.nextClusterID

section OneCall

variable {pg : Postgres} {d d' : Db} {c : Call} {calls calls' : List Call} {id : ℤ}

theorem Effect.refl (calls : List Call) (d : Db) : Effect calls d d :=
  ⟨.same rfl (Int.le_refl _), .same rfl (Int.le_refl _), .same rfl (Int.le_refl _)⟩

theorem Effect.trans {d'' : Db} (h : Effect calls d d') (h' : Effect calls' d' d'') :
    Effect (calls ++ calls') d d'' := by
  refine ⟨(h.operations.trans h'.operations).weaken fun k hk => ?_,
    (h.servers.trans h'.servers).weaken fun k hk => ?_,
    (h.clusters.trans h'.clusters).weaken fun i hi => List.mem_append.mpr hi⟩
  · exact List.mem_append.mpr hk
  · rcases hk with (hk | hk) | (hk | hk)
    · exact Or.inl (List.mem_append_left _ hk)
    · exact Or.inr (List.mem_append_left _ hk)
    · exact Or.inl (List.mem_append_right _ hk)
    · exact Or.inr (List.mem_append_right _ hk)

/-- A call that writes the rows of one table only. -/
theorem effect_of_operations
    (h : Evolves Prod.fst (fun k => .deleteClusterOperations k.2 ∈ calls) (operationKeys d)
      (operationKeys d') d.nextOperationID d'.nextOperationID)
    (hs : serverKeys d' = serverKeys d) (hsn : d.nextServerID ≤ d'.nextServerID)
    (hc : clusterIDs d' = clusterIDs d) (hcn : d.nextClusterID ≤ d'.nextClusterID) :
    Effect calls d d' :=
  ⟨h, .same hs hsn, .same hc hcn⟩

theorem effect_of_servers
    (h : Evolves Prod.fst
      (fun k => .row (.deleteServer k.1) ∈ calls ∨ .row (.deleteClusterServers k.2) ∈ calls)
      (serverKeys d) (serverKeys d') d.nextServerID d'.nextServerID)
    (hs : operationKeys d' = operationKeys d) (hsn : d.nextOperationID ≤ d'.nextOperationID)
    (hc : clusterIDs d' = clusterIDs d) (hcn : d.nextClusterID ≤ d'.nextClusterID) :
    Effect calls d d' :=
  ⟨.same hs hsn, h, .same hc hcn⟩

theorem effect_of_clusters
    (h : Evolves (fun i => i) (fun i => .row (.deleteClusterRow i) ∈ calls) (clusterIDs d)
      (clusterIDs d') d.nextClusterID d'.nextClusterID)
    (hs : operationKeys d' = operationKeys d) (hsn : d.nextOperationID ≤ d'.nextOperationID)
    (hc : serverKeys d' = serverKeys d) (hcn : d.nextServerID ≤ d'.nextServerID) :
    Effect calls d d' :=
  ⟨.same hs hsn, .same hc hcn, h⟩

theorem clusterIDs_updateServerCount (new : Option ℤ) (t : Tables) :
    (updateServerCount new t).clusters.map Cluster.clusterID =
      t.clusters.map Cluster.clusterID := by
  refine map_updateWhere (fun c => ?_) t.clusters
  rfl

/-- A row of servers is written, and the trigger counts the rows of its cluster. -/
theorem effect_of_counted {new : Option ℤ} {servers : List Server} {n : ℤ}
    (ht : d'.toTables = updateServerCount new
      { d.toTables with servers := servers, nextServerID := n })
    (h : Evolves Prod.fst
      (fun k => .row (.deleteServer k.1) ∈ calls ∨ .row (.deleteClusterServers k.2) ∈ calls)
      (serverKeys d) (servers.map fun s => (s.serverID, s.clusterID)) d.nextServerID n) :
    Effect calls d d' := by
  have hservers : serverKeys d' = servers.map fun s => (s.serverID, s.clusterID) := by
    rw [serverKeys, ht]
    rfl
  have hnext : d'.nextServerID = n := by rw [ht]; rfl
  refine effect_of_servers (by rw [hservers, hnext]; exact h) ?_ ?_ ?_ ?_
  · rw [operationKeys, ht]
    rfl
  · rw [ht]
    exact Int.le_refl _
  · rw [clusterIDs, ht]
    exact clusterIDs_updateServerCount new _
  · rw [ht]
    exact Int.le_refl _

theorem serverKeys_updateWhere {p : Server → Bool} {f : Server → Server}
    (hf : ∀ s, (f s).serverID = s.serverID ∧ (f s).clusterID = s.clusterID) :
    (updateWhere p f d.servers).map (fun s => (s.serverID, s.clusterID)) = serverKeys d :=
  map_updateWhere (fun s => Prod.ext (hf s).1 (hf s).2) d.servers

theorem effect_updateServer {req : UpdateServerReq} (h : updateServer pg req d = some d') :
    Effect calls d d' := by
  rw [updateServer] at h
  cases hip : pg.inetIn req.ipAddress with
  | none => simp [hip] at h
  | some ip =>
    simp only [hip, Option.bind_some] at h
    split at h
    · refine effect_of_counted (commit_eq_some.mp h) ?_
      split
      · exact .same (serverKeys_updateWhere fun _ => ⟨rfl, rfl⟩) (Int.le_of_lt (Int.lt_succ _))
      · refine .append (d.nextServerID, req.clusterID) ?_ rfl (Int.le_of_lt (Int.lt_succ _))
        rw [List.map_append]
        rfl
    · cases h

theorem effect_resetServer {text : String} (h : resetServer pg id text d = some d') :
    Effect calls d d' := by
  rw [resetServer] at h
  cases hip : pg.inetIn text with
  | none => simp [hip] at h
  | some ip =>
    simp only [hip, Option.bind_some] at h
    split at h
    · exact effect_of_counted (commit_eq_some.mp h)
        (.same (serverKeys_updateWhere fun _ => ⟨rfl, rfl⟩) (Int.le_refl _))
    · cases h

theorem effect_deleteServers {p : Server → Bool} (h : deleteServers p d = some d')
    (hp : ∀ s, p s = true → .row (.deleteServer s.serverID) ∈ calls ∨
      .row (.deleteClusterServers s.clusterID) ∈ calls) : Effect calls d d' := by
  have ht := deleteServers_tables h
  have hs : d'.servers = deleteWhere p d.servers := by rw [ht]
  refine effect_of_servers ⟨fun k hk hno => ?_, fun k hk => Or.inl ?_, ?_⟩
    (by rw [operationKeys, ht]; rfl) (by rw [ht]) (by rw [clusterIDs, ht]; rfl) (by rw [ht])
  · obtain ⟨s, hm, rfl⟩ := List.mem_map.mp hk
    rw [serverKeys, hs]
    refine List.mem_map_of_mem (mem_deleteWhere.mpr ⟨hm, Bool.eq_false_iff.mpr fun hdel => ?_⟩)
    exact hno (hp s hdel)
  · rw [serverKeys, hs] at hk
    obtain ⟨s, hm, rfl⟩ := List.mem_map.mp hk
    exact List.mem_map_of_mem (mem_deleteWhere.mp hm).1
  · rw [ht]

theorem effect_statement {st : Statement} (h : ConsoleServerCount.exec pg st d = some d') :
    Effect [.row st] d d' := by
  cases st with
  | createCluster req now =>
    have ht := exec_createCluster h
    refine effect_of_clusters (.append d.nextClusterID ?_ rfl ?_)
      (by rw [operationKeys, ht]; rfl) (by rw [ht]) (by rw [serverKeys, ht]; rfl) (by rw [ht])
    · rw [clusterIDs, ht, List.map_append]
      rfl
    · rw [ht]
      exact Int.le_of_lt (Int.lt_succ _)
  | createServer req =>
    obtain ⟨⟨s, e⟩, he, rfl⟩ := Option.map_eq_some_iff.mp h
    obtain ⟨ip, -, -, ht⟩ := createServer_eq_some.mp he
    refine effect_of_counted ht (.append (d.nextServerID, req.clusterID) ?_ rfl
      (Int.le_of_lt (Int.lt_succ _)))
    rw [List.map_append]
    rfl
  | updateServer req => exact effect_updateServer h
  | resetServer i ip => exact effect_resetServer h
  | deleteServer i =>
    refine effect_deleteServers h fun s hs => Or.inl ?_
    obtain rfl : s.serverID = i := of_decide_eq_true hs
    exact List.mem_singleton_self _
  | deleteClusterServers i =>
    refine effect_deleteServers h fun s hs => Or.inr ?_
    obtain rfl : s.clusterID = i := of_decide_eq_true hs
    exact List.mem_singleton_self _
  | deleteClusterRow i =>
    have ht := exec_deleteClusterRow h
    have hc : d'.clusters = deleteWhere (fun c => decide (c.clusterID = i)) d.clusters := by rw [ht]
    refine effect_of_clusters ⟨fun k hk hno => ?_, fun k hk => Or.inl ?_, by rw [ht]⟩
      (by rw [operationKeys, ht]; rfl) (by rw [ht]) (by rw [serverKeys, ht]; rfl) (by rw [ht])
    · obtain ⟨c, hm, rfl⟩ := List.mem_map.mp hk
      rw [clusterIDs, hc]
      refine List.mem_map_of_mem (mem_deleteWhere.mpr ⟨hm, decide_eq_false ?_⟩)
      rintro rfl
      exact hno (List.mem_singleton_self _)
    · rw [clusterIDs, hc] at hk
      obtain ⟨c, hm, rfl⟩ := List.mem_map.mp hk
      exact List.mem_map_of_mem (mem_deleteWhere.mp hm).1

/-- Rows of clusters are rewritten and keep their numbers. -/
theorem effect_updatedClusters {p : Cluster → Bool} {f : Cluster → Cluster}
    (ht : d'.toTables = { d.toTables with clusters := updateWhere p f d.clusters })
    (hf : ∀ c, (f c).clusterID = c.clusterID) : Effect calls d d' := by
  refine effect_of_clusters (.same ?_ (by rw [ht])) (by rw [operationKeys, ht]; rfl) (by rw [ht])
    (by rw [serverKeys, ht]; rfl) (by rw [ht])
  rw [clusterIDs, ht]
  exact map_updateWhere hf d.clusters

theorem effect_exec (h : exec pg d c = some d') : Effect [c] d d' := by
  cases c with
  | row st => exact effect_statement h
  | updateCluster req =>
    obtain ⟨⟨c, e⟩, he, rfl⟩ := Option.map_eq_some_iff.mp h
    obtain ⟨info, -, -, ht, -⟩ := updateCluster_eq_some.mp he
    exact effect_updatedClusters ht fun _ => rfl
  | deleteClusterSoft i now =>
    exact effect_updatedClusters (commit_eq_some.mp h) fun _ => rfl
  | createOperation req now =>
    obtain ⟨⟨o, e⟩, he, rfl⟩ := Option.map_eq_some_iff.mp h
    obtain ⟨-, -, ht⟩ := createOperation_eq_some.mp he
    refine effect_of_operations (.append (d.nextOperationID, req.clusterID) ?_ rfl ?_)
      (by rw [serverKeys, ht]; rfl) (by rw [ht]) (by rw [clusterIDs, ht]; rfl) (by rw [ht])
    · rw [operationKeys, ht, List.map_append]
      rfl
    · rw [ht]
      exact Int.le_of_lt (Int.lt_succ _)
  | updateOperation req =>
    obtain ⟨-, -, -, ht⟩ := updateOperation_eq_some.mp h
    refine effect_of_operations (.same ?_ (by rw [ht])) (by rw [serverKeys, ht]; rfl) (by rw [ht])
      (by rw [clusterIDs, ht]; rfl) (by rw [ht])
    rw [operationKeys, ht]
    refine map_updateWhere (fun o => ?_) d.operations
    rfl
  | deleteClusterOperations i =>
    have ht := commit_eq_some.mp h
    have ho : d'.operations = deleteWhere (fun o => decide (o.clusterID = i)) d.operations := by
      rw [ht]
    refine effect_of_operations ⟨fun k hk hno => ?_, fun k hk => Or.inl ?_, by rw [ht]⟩
      (by rw [serverKeys, ht]; rfl) (by rw [ht]) (by rw [clusterIDs, ht]; rfl) (by rw [ht])
    · obtain ⟨o, hm, rfl⟩ := List.mem_map.mp hk
      rw [operationKeys, ho]
      refine List.mem_map.mpr ⟨o, mem_deleteWhere.mpr ⟨hm, decide_eq_false ?_⟩, rfl⟩
      rintro rfl
      exact hno (List.mem_singleton_self _)
    · rw [operationKeys, ho] at hk
      obtain ⟨o, hm, rfl⟩ := List.mem_map.mp hk
      exact List.mem_map.mpr ⟨o, (mem_deleteWhere.mp hm).1, rfl⟩
  | others f =>
    have ht := commit_eq_some.mp h
    exact effect_of_operations (.same (by rw [operationKeys, ht]; rfl) (by rw [ht]; rfl))
      (by rw [serverKeys, ht]; rfl) (by rw [ht]; rfl) (by rw [clusterIDs, ht]; rfl)
      (by rw [ht]; rfl)

theorem effect_act (pg : Postgres) (d : Db) (c : Call) : Effect [c] d (act pg d c) := by
  rw [act]
  cases h : exec pg d c with
  | none => exact Effect.refl [c] d
  | some d' => exact effect_exec h

theorem effect_run (pg : Postgres) (calls : List Call) (d : Db) :
    Effect calls d (run (act pg) d calls) := by
  induction calls generalizing d with
  | nil => exact Effect.refl [] d
  | cons c calls ih => exact (effect_act pg d c).trans (ih (act pg d c))

end OneCall

/-! ## The three statements -/

section Statements

variable {pg : Postgres} {R : Removal} {d d₁ d₂ e : Db} {calls g₁ g₂ : List Call} {id : ℤ}

theorem deleteClusterOperations_isSome (id : ℤ) (d : Db) :
    (deleteClusterOperations id d).isSome := by
  have hsub : (deleteWhere (fun o => decide (o.clusterID = id)) d.operations).Sublist
      d.operations := List.filter_sublist
  have hk := d.ok
  rw [deleteClusterOperations, commit_isSome]
  exact { hk with
    operations_pkey := hk.operations_pkey.sublist (hsub.map _)
    operations_issued := fun o ho => hk.operations_issued o (hsub.subset ho)
    operations_cluster_fkey := fun o ho => hk.operations_cluster_fkey o (hsub.subset ho)
    operations_project_fkey := fun o ho => hk.operations_project_fkey o (hsub.subset ho)
    operations_docker_code := fun o ho => hk.operations_docker_code o (hsub.subset ho)
    operations_status_check := fun o ho => hk.operations_status_check o (hsub.subset ho) }

/-- The row can be deleted when nothing refers to it. -/
theorem deleteClusterRow_isSome : (deleteClusterRow id d).isSome ↔ ¬ Referred id d := by
  have hk := d.ok
  have hleft : ∀ i, i ∈ (deleteWhere (fun c => decide (c.clusterID = id)) d.clusters).map
      Cluster.clusterID ↔ i ∈ d.clusters.map Cluster.clusterID ∧ i ≠ id := by
    intro i
    simp only [List.mem_map, mem_deleteWhere, decide_eq_false_iff_not]
    constructor
    · rintro ⟨c, ⟨hc, hne⟩, rfl⟩
      exact ⟨⟨c, hc, rfl⟩, hne⟩
    · rintro ⟨⟨c, hc, rfl⟩, hne⟩
      exact ⟨c, ⟨hc, hne⟩, rfl⟩
  have hsub : (deleteWhere (fun c => decide (c.clusterID = id)) d.clusters).Sublist d.clusters :=
    List.filter_sublist
  rw [deleteClusterRow, commit_isSome]
  constructor
  · rintro h (⟨o, ho, hid⟩ | ⟨s, hs, hid⟩)
    · exact ((hleft _).mp (h.operations_cluster_fkey o ho)).2 hid
    · exact ((hleft _).mp (h.servers_cluster_fkey s hs)).2 hid
  · intro h
    exact { hk with
      clusters_pkey := hk.clusters_pkey.sublist (hsub.map _)
      clusters_name_key := hk.clusters_name_key.sublist (hsub.map _)
      clusters_issued := fun c hc => hk.clusters_issued c (hsub.subset hc)
      clusters_project_fkey := fun c hc => hk.clusters_project_fkey c (hsub.subset hc)
      clusters_environment_fkey := fun c hc => hk.clusters_environment_fkey c (hsub.subset hc)
      clusters_secret_fkey := fun c hc => hk.clusters_secret_fkey c (hsub.subset hc)
      servers_cluster_fkey := fun s hs => (hleft _).mpr
        ⟨hk.servers_cluster_fkey s hs, fun hid => h (Or.inr ⟨s, hs, hid⟩)⟩
      operations_cluster_fkey := fun o ho => (hleft _).mpr
        ⟨hk.operations_cluster_fkey o ho, fun hid => h (Or.inl ⟨o, ho, hid⟩)⟩ }

/-- The foreign keys leave nothing behind. -/
theorem gone_of_deleteClusterRow (h : deleteClusterRow id d = some e) : Gone id e := by
  have hc : id ∉ e.clusters.map Cluster.clusterID := by
    rw [commit_eq_some.mp h]
    rintro hmem
    obtain ⟨c, hc, hid⟩ := List.mem_map.mp hmem
    exact of_decide_eq_false (mem_deleteWhere.mp hc).2 hid
  refine ⟨?_, hc⟩
  rintro (⟨o, ho, rfl⟩ | ⟨s, hs, rfl⟩)
  · exact hc (e.ok.operations_cluster_fkey o ho)
  · exact hc (e.ok.servers_cluster_fkey s hs)

theorem operation_absent (hd : deleteClusterOperations id d = some d₁) (h : Effect calls d₁ e)
    {o : Operation} (ho : o ∈ d.operations) (hid : o.clusterID = id) :
    o.id ∉ e.operations.map Operation.id := by
  have ht := commit_eq_some.mp hd
  have hops : d₁.operations = deleteWhere (fun o => decide (o.clusterID = id)) d.operations := by
    rw [ht]
  intro hmem
  obtain ⟨o', ho', hnum⟩ := List.mem_map.mp hmem
  refine h.operations.absent (r := (o'.id, o'.clusterID)) ?_ ?_ (List.mem_map_of_mem ho')
  · intro hold
    obtain ⟨o'', ho'', hk⟩ := List.mem_map.mp hold
    rw [hops] at ho''
    obtain ⟨hin, hother⟩ := mem_deleteWhere.mp ho''
    have hsame : o'' = o :=
      eq_of_key_eq d.ok.operations_pkey hin ho ((congrArg Prod.fst hk).trans hnum)
    exact of_decide_eq_false hother (hsame ▸ hid)
  · rw [show d₁.nextOperationID = d.nextOperationID by rw [ht]]
    exact hnum ▸ d.ok.operations_issued o ho

theorem server_absent (hd : deleteClusterServers id d = some d₁) (h : Effect calls d₁ e)
    {n : ℤ} (hn : (n, id) ∈ serverKeys d) : n ∉ e.servers.map Server.serverID := by
  have ht := deleteServers_tables hd
  have hservers : d₁.servers = deleteWhere (fun s => decide (s.clusterID = id)) d.servers := by
    rw [ht]
  obtain ⟨s, hs, hkey⟩ := List.mem_map.mp hn
  obtain ⟨rfl, hid⟩ := Prod.mk.inj hkey
  intro hmem
  obtain ⟨s', hs', hnum⟩ := List.mem_map.mp hmem
  refine h.servers.absent (r := (s'.serverID, s'.clusterID)) ?_ ?_ (List.mem_map_of_mem hs')
  · intro hold
    obtain ⟨s'', hs'', hk⟩ := List.mem_map.mp hold
    rw [hservers] at hs''
    obtain ⟨hin, hother⟩ := mem_deleteWhere.mp hs''
    have hsame : s'' = s :=
      eq_of_key_eq d.ok.servers_pkey hin hs ((congrArg Prod.fst hk).trans hnum)
    exact of_decide_eq_false hother (hsame ▸ hid)
  · rw [show d₁.nextServerID = d.nextServerID by rw [ht]]
    exact hnum ▸ d.ok.servers_issued s hs

/-- Servers and clusters are as the other calls left them until the servers are deleted. -/
theorem servers_kept (hd : deleteClusterOperations id d = some d₁) (h : Effect calls d₁ e)
    (hcalls : .row (.deleteClusterServers id) ∉ calls) {s : Server} (hs : s ∈ d.servers)
    (hid : s.clusterID = id) (hone : .row (.deleteServer s.serverID) ∉ calls) :
    (s.serverID, id) ∈ serverKeys e := by
  have hkeys : serverKeys d₁ = serverKeys d := by
    rw [serverKeys, commit_eq_some.mp hd]
    rfl
  refine h.servers.kept _ (hkeys ▸ List.mem_map.mpr ⟨s, hs, by rw [hid]⟩) ?_
  rintro (hdel | hdel)
  · exact hone hdel
  · exact hcalls hdel

/-- The second statement fails, after the operations are gone. -/
theorem intact_second_iff (hd : deleteClusterOperations id d = some d₁) :
    Intact id g₁ d (run (act pg) d₁ g₁) ↔ NoOperations id g₁ d := by
  have heffect := effect_run pg g₁ d₁
  constructor
  · intro h
    by_cases hcall : .deleteClusterOperations id ∈ g₁
    · exact Or.inl hcall
    · exact Or.inr fun o ho hid =>
        operation_absent hd heffect ho hid (h.operations hcall o ho hid)
  · intro h
    refine ⟨fun hcall o ho hid => ?_, fun hcalls s hs hid hone => ?_, fun hcall c hc hid => ?_⟩
    · rcases h with h | h
      · exact absurd h hcall
      · exact absurd hid (h o ho)
    · obtain ⟨s', hs', hk⟩ := List.mem_map.mp (servers_kept hd heffect hcalls hs hid hone)
      exact List.mem_map.mpr ⟨s', hs', congrArg Prod.fst hk⟩
    · refine heffect.clusters.kept id ?_ hcall
      rw [clusterIDs, commit_eq_some.mp hd]
      exact hid ▸ List.mem_map_of_mem hc

/-- The third statement fails, after the servers are gone, too. -/
theorem intact_third_iff (hd : deleteClusterOperations id d = some d₁)
    (hs : deleteClusterServers id (run (act pg) d₁ g₁) = some d₂) :
    Intact id (g₁ ++ g₂) d (run (act pg) d₂ g₂) ↔
      NoOperations id (g₁ ++ g₂) d ∧ NoServers id (g₁ ++ g₂) d := by
  have hfirst := effect_run pg g₁ d₁
  have hsecond := effect_run pg g₂ d₂
  have hdelete : Effect [.row (.deleteClusterServers id)] (run (act pg) d₁ g₁) d₂ :=
    effect_exec (show exec pg _ (.row (.deleteClusterServers id)) = some d₂ from hs)
  have hwhole := (hfirst.trans hdelete).trans hsecond
  constructor
  · intro h
    refine ⟨?_, ?_⟩
    · by_cases hcall : .deleteClusterOperations id ∈ g₁ ++ g₂
      · exact Or.inl hcall
      · exact Or.inr fun o ho hid =>
          operation_absent hd hwhole ho hid (h.operations hcall o ho hid)
    · by_cases hcalls : .row (.deleteClusterServers id) ∈ g₁ ++ g₂
      · exact Or.inl hcalls
      · refine Or.inr fun s hsm hid => ?_
        by_contra hone
        have hkept := servers_kept hd hfirst (fun hm => hcalls (List.mem_append_left _ hm)) hsm hid
          (fun hm => hone (List.mem_append_left _ hm))
        exact server_absent hs hsecond hkept (h.servers hcalls s hsm hid hone)
  · rintro ⟨hops, hservers⟩
    refine ⟨fun hcall o ho hid => ?_, fun hcalls s hsm hid hone => ?_, fun hcall c hc hid => ?_⟩
    · rcases hops with hops | hops
      · exact absurd hops hcall
      · exact absurd hid (hops o ho)
    · rcases hservers with hservers | hservers
      · exact absurd hservers hcalls
      · exact absurd (hservers s hsm hid) hone
    · refine hwhole.clusters.kept id ?_ fun hmem => hcall ?_
      · rw [clusterIDs, commit_eq_some.mp hd]
        exact hid ▸ List.mem_map_of_mem hc
      · rcases List.mem_append.mp hmem with hmem | hmem
        · rcases List.mem_append.mp hmem with hmem | hmem
          · exact List.mem_append_left _ hmem
          · cases List.mem_singleton.mp hmem
        · exact List.mem_append_right _ hmem

end Statements

/-- The deletion is atomic exactly when a statement that fails finds nothing deleted before it. -/
theorem deleteCluster_atomic_iff (pg : Postgres) (R : Removal) (id : ℤ) (g₁ g₂ : List Call)
    (d : Db) : Atomic id d (deleteCluster pg R id g₁ g₂ d) ↔ Undivided pg R id g₁ g₂ d := by
  obtain ⟨d₁, hd⟩ := Option.isSome_iff_exists.mp (deleteClusterOperations_isSome id d)
  obtain ⟨d₂, hs⟩ := Option.isSome_iff_exists.mp
    (deleteServers_isSome (fun s => decide (s.clusterID = id)) (run (act pg) d₁ g₁))
  have hs : deleteClusterServers id (run (act pg) d₁ g₁) = some d₂ := hs
  have hbefore : beforeRow pg id g₁ g₂ d = run (act pg) d₂ g₂ := by
    simp only [beforeRow, hd, Option.getD_some, hs]
  have herror : ∀ {call : RemoveCall} {e : Db} {calls : List Call},
      Atomic id d ⟨e, some call, calls⟩ ↔ Intact id calls d e := by
    intro call e calls
    exact ⟨fun h => h.1 rfl, fun h => ⟨fun _ => h, fun hno => by cases hno⟩⟩
  cases hf₁ : R.fails .deleteOperations with
  | true =>
    simp only [deleteCluster, hf₁, if_true, herror]
    refine iff_of_true ⟨fun _ o ho _ => List.mem_map_of_mem ho, fun _ s hs _ _ =>
      List.mem_map_of_mem hs, fun _ c hc hid => hid ▸ List.mem_map_of_mem hc⟩ ?_
    exact ⟨fun h => by simp [hf₁] at h, fun h => by simp [hf₁] at h⟩
  | false =>
    cases hf₂ : R.fails .deleteServers with
    | true =>
      simp only [deleteCluster, hf₁, hf₂, if_true, Bool.false_eq_true, if_false, hd, herror,
        intact_second_iff hd]
      exact ⟨fun h => ⟨fun _ _ => h, fun _ h₂ => by simp [hf₂] at h₂⟩, fun h => h.second hf₁ hf₂⟩
    | false =>
      simp only [deleteCluster, hf₁, hf₂, Bool.false_eq_true, if_false, hd, hs]
      by_cases hthird : R.fails .deleteRow = true ∨ Referred id (run (act pg) d₂ g₂)
      · have hnone : (if R.fails .deleteRow = true then none
            else deleteClusterRow id (run (act pg) d₂ g₂)) = none := by
          rcases hthird with hf₃ | href
          · rw [if_pos hf₃]
          · rw [Option.not_isSome_iff_eq_none.mp fun h => deleteClusterRow_isSome.mp h href,
              ite_self]
        simp only [hnone, herror, intact_third_iff hd hs]
        exact ⟨fun h => ⟨fun _ h₂ => by simp [hf₂] at h₂, fun _ _ _ => h⟩,
          fun h => h.third hf₁ hf₂ (hbefore ▸ hthird)⟩
      · obtain ⟨hf₃, href⟩ := not_or.mp hthird
        obtain ⟨e, he⟩ := Option.isSome_iff_exists.mp (deleteClusterRow_isSome.mpr href)
        simp only [hf₃, he]
        refine iff_of_true
          ⟨fun h => absurd h Bool.false_ne_true, fun _ => gone_of_deleteClusterRow he⟩ ?_
        exact ⟨fun _ h₂ => by simp [hf₂] at h₂, fun _ _ h => absurd (hbefore ▸ h) hthird⟩

def noFailure : Removal := ⟨fun _ => false, fun _ => ""⟩

def addedServer : CreateServerReq := ⟨1, "node", none, "10.0.0.1"⟩

/-- The log watcher reports a server after the servers are deleted: the row of the cluster stays,
and its operation is gone. -/
theorem deleteCluster_halfway : ¬ ∀ (pg : Postgres) (R : Removal) (id : ℤ) (g₁ g₂ : List Call)
    (d : Db), Atomic id d (deleteCluster pg R id g₁ g₂ d) := by
  intro h
  let r := deleteCluster acceptAll noFailure 1 [] [.row (.createServer addedServer)] deploying
  have hothers : (r.others.all fun c => c matches .row (.createServer _)) = true := by
    decide +kernel
  have hkept : Intact 1 r.others deploying r.db := (h _ _ _ _ _ _).1 (by decide +kernel)
  have hops := hkept.operations
    (fun hm => Bool.false_ne_true (List.all_eq_true.mp hothers _ hm)) deployOperation
    (List.mem_singleton_self _) rfl
  exact absurd hops (by decide +kernel)

end ConsoleDeleteCluster
