import Autobase.ConsoleStatements
import Autobase.TransitionRuns

/-! # The derived column `server_count`

One trigger function serves insertions, updates and deletions of server rows, and it reads
the cluster from NEW. A deletion has no NEW row, so the count survives every statement but
the ones that delete a row. -/
namespace ConsoleServerCount

open ConsoleSchema ConsoleStatements RowTables TransitionRuns

/-- The statements of the service that write servers, and those that add or drop clusters. -/
inductive Statement where
  | createCluster (req : CreateClusterReq) (now : ℕ)
  | createServer (req : CreateServerReq)
  | updateServer (req : UpdateServerReq)
  | resetServer (clusterID : ℤ) (ipAddress : String)
  | deleteServer (id : ℤ)
  | deleteClusterServers (clusterID : ℤ)
  | deleteClusterRow (clusterID : ℤ)

def exec (pg : Postgres) : Statement → Db → Option Db
  | .createCluster req now, d => (createCluster pg req now d).map Prod.snd
  | .createServer req, d => (createServer pg req d).map Prod.snd
  | .updateServer req, d => updateServer pg req d
  | .resetServer i ip, d => resetServer pg i ip d
  | .deleteServer i, d => deleteServer i d
  | .deleteClusterServers i, d => deleteClusterServers i d
  | .deleteClusterRow i, d => deleteClusterRow i d

/-- The rows a statement selects for deletion. -/
def deletes : Statement → Server → Bool
  | .deleteServer i, s => decide (s.serverID = i)
  | .deleteClusterServers i, s => decide (s.clusterID = i)
  | _, _ => false

/-- The clusters whose server rows a succeeding statement inserts, updates or deletes. -/
def writes : Statement → Db → List ℤ
  | .createServer req, _ => [req.clusterID]
  | .updateServer req, _ => [req.clusterID]
  | .resetServer i _, _ => [i]
  | st, d => (d.servers.filter (deletes st)).map Server.clusterID

@[simp] theorem writes_createCluster (req : CreateClusterReq) (now : ℕ) (d : Db) :
    writes (.createCluster req now) d = [] := by
  simp [writes, deletes]

@[simp] theorem writes_deleteClusterRow (i : ℤ) (d : Db) :
    writes (.deleteClusterRow i) d = [] := by
  simp [writes, deletes]

structure Attempt where
  statement : Statement
  fails : Bool

structure History where
  db : Db
  written : List ℤ

def step (pg : Postgres) (h : History) (a : Attempt) : History :=
  if a.fails then h
  else match exec pg a.statement h.db with
    | none => h
    | some d => ⟨d, h.written ++ writes a.statement h.db⟩

def rowCount (id : ℤ) (servers : List Server) : ℕ :=
  servers.countP fun s => decide (s.clusterID = id)

def CountsAgree (h : History) : Prop :=
  ∀ c ∈ h.db.clusters, c.clusterID ∈ h.written → c.serverCount = rowCount c.clusterID h.db.servers

instance (h : History) : Decidable (CountsAgree h) :=
  inferInstanceAs (Decidable (∀ c ∈ h.db.clusters,
    c.clusterID ∈ h.written → c.serverCount = rowCount c.clusterID h.db.servers))

def KeepsServers (h : History) (a : Attempt) : Prop :=
  a.fails = false → ∀ s ∈ h.db.servers, deletes a.statement s = false

structure Recorded (h : History) : Prop where
  rows_written : ∀ s ∈ h.db.servers, s.clusterID ∈ h.written
  written_issued : ∀ i ∈ h.written, i < h.db.nextClusterID

/-! ## What each statement does -/

theorem exec_createCluster {pg : Postgres} {req now d d'}
    (h : exec pg (.createCluster req now) d = some d') :
    d'.toTables = { d.toTables with
      clusters := d.clusters ++ [req.row d.nextClusterID now]
      nextClusterID := d.nextClusterID + 1 } := by
  obtain ⟨⟨c, e⟩, he, rfl⟩ := Option.map_eq_some_iff.mp h
  exact (createCluster_eq_some.mp he).2.2

/-- Every write of one row ends in the trigger for the cluster of that row. -/
structure RowWrite (d d' : Db) (id : ℤ) : Prop where
  tables : ∃ servers n, d'.toTables = updateServerCount (some id)
    { d.toTables with servers := servers, nextServerID := n }
  others : ∀ j, j ≠ id → rowCount j d'.servers = rowCount j d.servers
  rows : ∀ s ∈ d'.servers, s.clusterID = id ∨ ∃ q ∈ d.servers, q.clusterID = s.clusterID
  target : ∃ s ∈ d'.servers, s.clusterID = id

theorem rowWrite_append {d d' : Db} {s : Server} {n : ℤ}
    (h : d'.toTables = updateServerCount (some s.clusterID)
      { d.toTables with servers := d.servers ++ [s], nextServerID := n }) :
    RowWrite d d' s.clusterID := by
  have hs : d'.servers = d.servers ++ [s] := by rw [h]; rfl
  refine ⟨⟨_, _, h⟩, ?_, ?_, ⟨s, by simp [hs], rfl⟩⟩
  · intro j hj
    simp [hs, rowCount, Ne.symm hj]
  · intro q hq
    rw [hs] at hq
    rcases List.mem_append.mp hq with hq | hq
    · exact Or.inr ⟨q, hq, rfl⟩
    · exact Or.inl (by rw [List.mem_singleton.mp hq])

theorem rowWrite_update {d d' : Db} {p : Server → Bool} {f : Server → Server} {id n : ℤ}
    (hf : ∀ s, (f s).clusterID = s.clusterID) (hid : ∃ s ∈ d.servers, s.clusterID = id)
    (h : d'.toTables = updateServerCount (some id)
      { d.toTables with servers := updateWhere p f d.servers, nextServerID := n }) :
    RowWrite d d' id := by
  have hs : d'.servers = updateWhere p f d.servers := by rw [h]; rfl
  have hcol : d'.servers.map Server.clusterID = d.servers.map Server.clusterID := by
    rw [hs]
    exact map_updateWhere hf d.servers
  refine ⟨⟨_, _, h⟩, ?_, ?_, ?_⟩
  · intro j _
    rw [hs]
    exact countP_updateWhere (fun s => by simp [hf]) d.servers
  · intro s hm
    rw [hs] at hm
    obtain ⟨q, hq, rfl⟩ := mem_updateWhere.mp hm
    refine Or.inr ⟨q, hq, ?_⟩
    split
    · exact (hf q).symm
    · rfl
  · rw [← List.mem_map, hcol, List.mem_map]
    exact hid

/-- The rows found by the columns of the unique index belong to the cluster. -/
theorem hit_cluster {i : ℤ} {ip : Inet} {servers : List Server}
    (h : (servers.any fun s => decide (s.key = (i, ip))) = true) :
    ∃ s ∈ servers, s.clusterID = i := by
  obtain ⟨s, hs, hk⟩ := List.any_eq_true.mp h
  exact ⟨s, hs, congrArg Prod.fst (of_decide_eq_true hk)⟩

theorem exec_createServer {pg : Postgres} {req d d'}
    (h : exec pg (.createServer req) d = some d') : RowWrite d d' req.clusterID := by
  obtain ⟨⟨s, e⟩, he, rfl⟩ := Option.map_eq_some_iff.mp h
  obtain ⟨ip, -, -, ht⟩ := createServer_eq_some.mp he
  exact rowWrite_append (s := newServer req d.nextServerID ip) ht

theorem exec_updateServer {pg : Postgres} {req d d'}
    (h : exec pg (.updateServer req) d = some d') : RowWrite d d' req.clusterID := by
  simp only [exec, updateServer] at h
  cases hip : pg.inetIn req.ipAddress with
  | none => simp [hip] at h
  | some ip =>
    simp only [hip, Option.bind_some] at h
    split at h
    · have ht := commit_eq_some.mp h
      split at ht
      · next hany => exact rowWrite_update (f := req.apply) (fun s => rfl) (hit_cluster hany) ht
      · exact rowWrite_append (s := req.row d.nextServerID ip) ht
    · cases h

theorem exec_resetServer {pg : Postgres} {i ip d d'}
    (h : exec pg (.resetServer i ip) d = some d') : RowWrite d d' i := by
  simp only [exec, resetServer] at h
  cases hip : pg.inetIn ip with
  | none => simp [hip] at h
  | some a =>
    simp only [hip, Option.bind_some] at h
    split at h
    · next hany =>
      exact rowWrite_update (f := Server.reset) (fun s => rfl) (hit_cluster hany)
        (commit_eq_some.mp h)
    · cases h

theorem deleteServers_tables {p : Server → Bool} {d d' : Db} (h : deleteServers p d = some d') :
    d'.toTables = { d.toTables with servers := deleteWhere p d.servers } := by
  simpa using commit_eq_some.mp h

/-- A deletion of server rows violates no constraint. -/
theorem deleteServers_isSome (p : Server → Bool) (d : Db) : (deleteServers p d).isSome := by
  have hsub : (deleteWhere p d.servers).Sublist d.servers := List.filter_sublist
  have hk := d.ok
  simp only [deleteServers, updateServerCount_none, commit_isSome]
  exact { hk with
    servers_pkey := hk.servers_pkey.sublist (hsub.map _)
    servers_issued := fun s hs => hk.servers_issued s (hsub.subset hs)
    servers_address_idx := hk.servers_address_idx.sublist (hsub.map _)
    servers_cluster_fkey := fun s hs => hk.servers_cluster_fkey s (hsub.subset hs) }

theorem exec_deleteClusterRow {pg : Postgres} {i d d'}
    (h : exec pg (.deleteClusterRow i) d = some d') :
    d'.toTables = { d.toTables with
      clusters := deleteWhere (fun c => decide (c.clusterID = i)) d.clusters } :=
  commit_eq_some.mp h

/-! ## The count along a run -/

theorem countsAgree_rowWrite {d d' : Db} {w : List ℤ} {id : ℤ} (hw : RowWrite d d' id)
    (h : CountsAgree ⟨d, w⟩) : CountsAgree ⟨d', w ++ [id]⟩ := by
  obtain ⟨⟨servers, n, ht⟩, hother, _⟩ := hw
  have hs : d'.servers = servers := by rw [ht]; rfl
  intro c hc hm
  have hcl : c ∈ (updateServerCount (some id)
      { d.toTables with servers := servers, nextServerID := n }).clusters := ht ▸ hc
  obtain ⟨q, hq, rfl⟩ := mem_updateWhere.mp hcl
  by_cases hid : some id = some q.clusterID
  · -- the trigger has just counted the rows of this cluster
    have hid' : id = q.clusterID := Option.some.inj hid
    simp only [hid, decide_true, if_true, rowCount, hs]
    norm_cast
    apply List.countP_congr
    intro s _
    simp [eq_comm]
  · have hne : q.clusterID ≠ id := fun he => hid (by rw [he])
    simp only [hid, decide_false, Bool.false_eq_true, if_false, List.mem_append,
      List.mem_singleton, hne, or_false] at hm ⊢
    rw [hother _ hne]
    exact h q hq hm

theorem countsAgree_deleteServers {p : Server → Bool} {d d' : Db} {w : List ℤ}
    (hr : Recorded ⟨d, w⟩) (h : CountsAgree ⟨d, w⟩) (hd : deleteServers p d = some d') :
    CountsAgree ⟨d', w ++ (d.servers.filter p).map Server.clusterID⟩ ↔
      ∀ s ∈ d.servers, p s = false := by
  have ht := deleteServers_tables hd
  have hc : d'.clusters = d.clusters := by rw [ht]
  have hs : d'.servers = deleteWhere p d.servers := by rw [ht]
  constructor
  · intro ha s hm
    by_contra hp
    have hp : p s = true := by simpa using hp
    obtain ⟨c, hcm, hcs⟩ := List.mem_map.mp (d.ok.servers_cluster_fkey s hm)
    have hw : c.clusterID ∈ w := hcs ▸ hr.rows_written s hm
    have hbefore := h c hcm hw
    have hafter := ha c (hc ▸ hcm) (List.mem_append_left _ hw)
    have hsplit := countP_deleteWhere p (fun s => decide (s.clusterID = c.clusterID)) d.servers
    have hpos : 0 < (d.servers.filter p).countP fun s => decide (s.clusterID = c.clusterID) :=
      List.countP_pos_iff.mpr ⟨s, List.mem_filter.mpr ⟨hm, hp⟩, by simp [hcs]⟩
    simp only [hs, rowCount] at hbefore hafter
    omega
  · intro hnone c hcm hm
    have hempty : d.servers.filter p = [] := by
      rw [List.filter_eq_nil_iff]
      intro s hsm
      simp [hnone s hsm]
    simp only [hempty, List.map_nil, List.append_nil] at hm
    simp only [hs, deleteWhere_eq_self hnone]
    exact h c (hc ▸ hcm) hm

theorem recorded_rowWrite {d d' : Db} {w : List ℤ} {id : ℤ} (hw : RowWrite d d' id)
    (hr : Recorded ⟨d, w⟩) : Recorded ⟨d', w ++ [id]⟩ := by
  obtain ⟨⟨servers, n, ht⟩, _, hrows, s, hs, hsid⟩ := hw
  have hn : d'.nextClusterID = d.nextClusterID := by rw [ht]; rfl
  constructor
  · intro s hm
    rcases hrows s hm with he | ⟨q, hq, he⟩
    · exact List.mem_append_right _ (by simp [he])
    · exact List.mem_append_left _ (he ▸ hr.rows_written q hq)
  · intro i hi
    rcases List.mem_append.mp hi with hi | hi
    · exact hn ▸ hr.written_issued i hi
    · rw [List.mem_singleton.mp hi]
      obtain ⟨c, hc, he⟩ := List.mem_map.mp (d'.ok.servers_cluster_fkey s hs)
      rw [← hsid, ← he]
      exact d'.ok.clusters_issued c hc

theorem recorded_deleteServers {p : Server → Bool} {d d' : Db} {w : List ℤ}
    (hd : deleteServers p d = some d') (hr : Recorded ⟨d, w⟩) :
    Recorded ⟨d', w ++ (d.servers.filter p).map Server.clusterID⟩ := by
  have ht := deleteServers_tables hd
  have hs : d'.servers = deleteWhere p d.servers := by rw [ht]
  have hn : d'.nextClusterID = d.nextClusterID := by rw [ht]
  constructor
  · intro s hm
    rw [hs] at hm
    exact List.mem_append_left _ (hr.rows_written s (mem_deleteWhere.mp hm).1)
  · intro i hi
    rw [hn]
    rcases List.mem_append.mp hi with hi | hi
    · exact hr.written_issued i hi
    · obtain ⟨s, hsm, rfl⟩ := List.mem_map.mp hi
      exact hr.written_issued _ (hr.rows_written s (List.mem_filter.mp hsm).1)

theorem recorded_step (pg : Postgres) (h : History) (a : Attempt) (hr : Recorded h) :
    Recorded (step pg h a) := by
  obtain ⟨d, w⟩ := h
  rw [step]
  split
  · exact hr
  split
  · exact hr
  · next d' hx =>
    obtain ⟨st, f⟩ := a
    cases st with
    | createCluster req now =>
      have ht := exec_createCluster hx
      simp only [writes_createCluster, List.append_nil]
      constructor
      · intro s hs
        exact hr.rows_written s (by rw [ht] at hs; exact hs)
      · intro i hi
        have := hr.written_issued i hi
        rw [ht]
        exact Int.lt_add_one_of_le (Int.le_of_lt this)
    | createServer req => exact recorded_rowWrite (exec_createServer hx) hr
    | updateServer req => exact recorded_rowWrite (exec_updateServer hx) hr
    | resetServer i ip => exact recorded_rowWrite (exec_resetServer hx) hr
    | deleteServer i => exact recorded_deleteServers hx hr
    | deleteClusterServers i => exact recorded_deleteServers hx hr
    | deleteClusterRow i =>
      have ht := exec_deleteClusterRow hx
      simp only [writes_deleteClusterRow, List.append_nil]
      constructor
      · intro s hs
        exact hr.rows_written s (by rw [ht] at hs; exact hs)
      · intro i hi
        rw [ht]
        exact hr.written_issued i hi

/-- A deletion is the only way to lose the count. -/
theorem countsAgree_step (pg : Postgres) (h : History) (a : Attempt) (hr : Recorded h)
    (hc : CountsAgree h) : CountsAgree (step pg h a) ↔ KeepsServers h a := by
  obtain ⟨d, w⟩ := h
  obtain ⟨st, f⟩ := a
  cases f with
  | true => simp [step, KeepsServers, hc]
  | false =>
    simp only [step, KeepsServers, Bool.false_eq_true, if_false, forall_const]
    cases hx : exec pg st d with
    | none =>
      -- a deletion of server rows cannot fail on a constraint
      cases st with
      | deleteServer i =>
        have := deleteServers_isSome (fun s => decide (s.serverID = i)) d
        simp [exec, deleteServer] at hx
        simp [hx] at this
      | deleteClusterServers i =>
        have := deleteServers_isSome (fun s => decide (s.clusterID = i)) d
        simp [exec, deleteClusterServers] at hx
        simp [hx] at this
      | _ => simp [deletes, hc]
    | some d' =>
      cases st with
      | createCluster req now =>
        have ht := exec_createCluster hx
        simp only [deletes, implies_true, iff_true]
        intro c hcm hm
        simp only [writes_createCluster, List.append_nil] at hm
        have hcl : c ∈ d.clusters ++ [req.row d.nextClusterID now] := by
          rw [ht] at hcm
          exact hcm
        have hs : d'.servers = d.servers := by rw [ht]
        rcases List.mem_append.mp hcl with hcl | hcl
        · rw [hs]
          exact hc c hcl hm
        · -- the identifier of the new cluster was not issued before
          have := hr.written_issued _ hm
          rw [List.mem_singleton.mp hcl] at this
          exact absurd this (Int.lt_irrefl _)
      | createServer req =>
        simp [deletes, countsAgree_rowWrite (exec_createServer hx) hc, writes]
      | updateServer req =>
        simp [deletes, countsAgree_rowWrite (exec_updateServer hx) hc, writes]
      | resetServer i ip =>
        simp [deletes, countsAgree_rowWrite (exec_resetServer hx) hc, writes]
      | deleteServer i => exact countsAgree_deleteServers hr hc hx
      | deleteClusterServers i => exact countsAgree_deleteServers hr hc hx
      | deleteClusterRow i =>
        have ht := exec_deleteClusterRow hx
        simp only [deletes, implies_true, iff_true]
        intro c hcm hm
        simp only [writes_deleteClusterRow, List.append_nil] at hm
        have hs : d'.servers = d.servers := by rw [ht]
        rw [ht] at hcm
        rw [hs]
        exact hc c (mem_deleteWhere.mp hcm).1 hm

/-- From tables without servers, the counts agree after every statement exactly when no
statement of the run deletes a server row. -/
theorem server_count_agrees_iff (pg : Postgres) (d : Db) (hd : d.servers = [])
    (as : List Attempt) :
    (∀ h ∈ visited (step pg) ⟨d, []⟩ as, CountsAgree h) ↔
      Along (step pg) KeepsServers ⟨d, []⟩ as := by
  apply visited_iff_along (recorded_step pg) (countsAgree_step pg)
  · constructor
    · intro s hs
      simp [hd] at hs
    · intro i hi
      cases hi
  · intro c _ hm
    cases hm

/-- A cluster, two servers and the deletion of one of them. -/
def shrink : List Attempt :=
  [⟨.createCluster deployRequest 0, false⟩, ⟨.createServer ⟨1, "pgnode01", none, "10.0.0.1"⟩, false⟩,
    ⟨.createServer ⟨1, "pgnode02", none, "10.0.0.2"⟩, false⟩, ⟨.deleteServer 2, false⟩]

theorem server_count_agrees_migrated :
    migrated.servers = [] ∧
      ((∀ h ∈ visited (step acceptAll) ⟨migrated, []⟩ (shrink.take 3), CountsAgree h) ↔
        Along (step acceptAll) KeepsServers ⟨migrated, []⟩ (shrink.take 3)) :=
  ⟨rfl, server_count_agrees_iff acceptAll migrated rfl (shrink.take 3)⟩

theorem shrunk_count_stale :
    ¬ ∀ h ∈ visited (step acceptAll) ⟨migrated, []⟩ shrink, CountsAgree h := by
  decide

end ConsoleServerCount
