import Autobase.ConsoleServerCount

/-! # Rows in the hands of other requests

What the statements of the service do to clusters and secrets. A row keeps what it was created
with: no statement writes the value of a secret or the variables of a cluster, a deletion takes
the row or its secret away, and no number is issued twice. -/
namespace ConsoleStoredRows

open ConsoleSchema ConsoleStatements RowTables TransitionRuns JsonText

/-- The tables, and the sequence of the secrets. -/
structure Store where
  db : Db
  nextSecretID : ℤ

structure AddSecretReq where
  projectID : ℤ
  type : String
  name : String
  value : Option (List Char)

def AddSecretReq.row (req : AddSecretReq) (id : ℤ) (v : Json) : Secret :=
  ⟨id, req.projectID, req.type, req.name, v⟩

/-- A missing value and a text that is no JSON are refused, and so are a name that is taken and
a project that does not exist. -/
def createSecret (req : AddSecretReq) (s : Store) : Option (Secret × Store) :=
  (req.value.bind parse).bind fun v =>
    if textIn req.type && textIn req.name &&
        s.db.projects.any (fun p => decide (p.projectID = req.projectID)) &&
        !s.db.secrets.any (fun q => decide (q.secretName = req.name)) then
      let secret := req.row s.nextSecretID v
      (commit { s.db.toTables with secrets := s.db.secrets ++ [secret] }).map fun d =>
        (secret, ⟨d, s.nextSecretID + 1⟩)
    else none

/-- A secret that a cluster refers to is not deleted. -/
def deleteSecret (id : ℤ) (s : Store) : Option Store :=
  (commit { s.db.toTables with
    secrets := deleteWhere (fun q => decide (q.secretID = id)) s.db.secrets }).map fun d =>
      { s with db := d }

/-- The statements that write; those of projects, environments, settings and operations leave
clusters and secrets alone. -/
inductive Write where
  | row (st : ConsoleServerCount.Statement)
  | updateCluster (req : UpdateClusterReq)
  | deleteClusterSoft (id : ℤ) (now : ℕ)
  | createSecret (req : AddSecretReq)
  | deleteSecret (id : ℤ)
  | others (f : Tables → Tables)

def exec (pg : Postgres) (s : Store) : Write → Option Store
  | .row st => (ConsoleServerCount.exec pg st s.db).map fun d => { s with db := d }
  | .updateCluster req => (ConsoleSchema.updateCluster pg req s.db).map fun r => { s with db := r.2 }
  | .deleteClusterSoft id now =>
    (ConsoleSchema.deleteClusterSoft pg id now s.db).map fun d => { s with db := d }
  | .createSecret req => (createSecret req s).map Prod.snd
  | .deleteSecret id => deleteSecret id s
  | .others f =>
    (commit { f s.db.toTables with
      clusters := s.db.clusters
      secrets := s.db.secrets
      nextClusterID := s.db.nextClusterID }).map fun d => { s with db := d }

/-- A statement that fails leaves everything as it was. -/
def act (pg : Postgres) (s : Store) (w : Write) : Store := (exec pg s w).getD s

/-- What is left of a row of clusters later on. -/
structure Carried (c c' : Cluster) : Prop where
  id : c'.clusterID = c.clusterID
  extraVars : c'.extraVars = c.extraVars
  inventory : c'.inventory = c.inventory
  secret : c'.secretID = c.secretID ∧ c'.deletedAt = c.deletedAt ∨
    c'.secretID = none ∧ c'.deletedAt.isSome

theorem Carried.refl (c : Cluster) : Carried c c := ⟨rfl, rfl, rfl, Or.inl ⟨rfl, rfl⟩⟩

theorem Carried.trans {a b c : Cluster} (h : Carried a b) (h' : Carried b c) : Carried a c := by
  refine ⟨h'.id.trans h.id, h'.extraVars.trans h.extraVars, h'.inventory.trans h.inventory, ?_⟩
  rcases h'.secret with ⟨hs, hd⟩ | hdeleted
  · rw [hs, hd]
    exact h.secret
  · exact Or.inr hdeleted

/-! ## One statement -/

/-- Every row of clusters stood there before, or has a new number. -/
structure Grows (d d' : Db) : Prop where
  rows : ∀ c' ∈ d'.clusters, (∃ c ∈ d.clusters, Carried c c') ∨ d.nextClusterID ≤ c'.clusterID
  next : d.nextClusterID ≤ d'.nextClusterID

variable {pg : Postgres} {d d' : Db} {s s' : Store}

theorem grows_of_update {p : Cluster → Bool} {f : Cluster → Cluster} (hf : ∀ c, Carried c (f c))
    (hc : d'.clusters = updateWhere p f d.clusters) (hn : d'.nextClusterID = d.nextClusterID) :
    Grows d d' := by
  refine ⟨fun c' hc' => ?_, Int.le_of_eq hn.symm⟩
  rw [hc] at hc'
  obtain ⟨c, hm, rfl⟩ := mem_updateWhere.mp hc'
  refine Or.inl ⟨c, hm, ?_⟩
  split
  · exact hf c
  · exact Carried.refl c

theorem grows_of_subset (hc : d'.clusters ⊆ d.clusters) (hn : d'.nextClusterID = d.nextClusterID) :
    Grows d d' :=
  ⟨fun c hm => Or.inl ⟨c, hc hm, Carried.refl c⟩, Int.le_of_eq hn.symm⟩

theorem carried_apply (req : UpdateClusterReq) (info : Option Json) (c : Cluster) :
    Carried c (req.apply info c) :=
  ⟨rfl, rfl, rfl, Or.inl ⟨rfl, rfl⟩⟩

theorem carried_softDeleted (now : ℕ) (c : Cluster) : Carried c (softDeleted pg now c) :=
  ⟨rfl, rfl, rfl, Or.inr ⟨rfl, rfl⟩⟩

theorem grows_rowWrite {id : ℤ} (h : ConsoleServerCount.RowWrite d d' id) :
    Grows d d' ∧ d'.secrets = d.secrets := by
  obtain ⟨servers, n, ht⟩ := h.tables
  refine ⟨grows_of_update (p := fun c => decide (some id = some c.clusterID)) (fun c => ?_)
    (congrArg Tables.clusters ht) (by rw [ht]; rfl), by rw [ht]; rfl⟩
  exact ⟨rfl, rfl, rfl, Or.inl ⟨rfl, rfl⟩⟩

theorem grows_statement {st : ConsoleServerCount.Statement}
    (h : ConsoleServerCount.exec pg st d = some d') : Grows d d' ∧ d'.secrets = d.secrets := by
  have hdelete : ∀ {p : Server → Bool}, deleteServers p d = some d' →
      Grows d d' ∧ d'.secrets = d.secrets := by
    intro p hd
    have ht := ConsoleServerCount.deleteServers_tables hd
    exact ⟨grows_of_subset (by rw [ht]; exact List.Subset.refl _) (by rw [ht]), by rw [ht]⟩
  cases st with
  | createCluster req now =>
    have ht := ConsoleServerCount.exec_createCluster h
    refine ⟨⟨fun c hc => ?_, ?_⟩, by rw [ht]⟩
    · rw [ht] at hc
      rcases List.mem_append.mp hc with hc | hc
      · exact Or.inl ⟨c, hc, Carried.refl c⟩
      · rw [List.mem_singleton.mp hc]
        exact Or.inr (Int.le_refl _)
    · rw [ht]
      exact Int.le_of_lt (Int.lt_succ _)
  | createServer req => exact grows_rowWrite (ConsoleServerCount.exec_createServer h)
  | updateServer req => exact grows_rowWrite (ConsoleServerCount.exec_updateServer h)
  | resetServer i ip => exact grows_rowWrite (ConsoleServerCount.exec_resetServer h)
  | deleteServer i => exact hdelete h
  | deleteClusterServers i => exact hdelete h
  | deleteClusterRow i =>
    have ht := ConsoleServerCount.exec_deleteClusterRow h
    refine ⟨grows_of_subset ?_ (by rw [ht]), by rw [ht]⟩
    rw [ht]
    exact fun c hc => (mem_deleteWhere.mp hc).1

theorem createSecret_eq_some {req : AddSecretReq} {q : Secret}
    (h : createSecret req s = some (q, s')) :
    ∃ v, req.value.bind parse = some v ∧ q = req.row s.nextSecretID v ∧
      s'.nextSecretID = s.nextSecretID + 1 ∧
      s'.db.toTables = { s.db.toTables with secrets := s.db.secrets ++ [q] } := by
  obtain ⟨v, hv, h⟩ := Option.bind_eq_some_iff.mp h
  refine ⟨v, hv, ?_⟩
  split at h
  · obtain ⟨d, hd, he⟩ := Option.map_eq_some_iff.mp h
    obtain ⟨rfl, rfl⟩ := Prod.mk.inj he
    exact ⟨rfl, rfl, commit_eq_some.mp hd⟩
  · cases h

/-- What one statement may do to clusters and secrets. -/
structure Step (s s' : Store) : Prop where
  clusters : Grows s.db s'.db
  secrets : ∀ q ∈ s'.db.secrets, q ∈ s.db.secrets ∨ q.secretID = s.nextSecretID
  next : s.nextSecretID ≤ s'.nextSecretID

theorem step_of_same (hg : Grows s.db d') (hs : d'.secrets = s.db.secrets) :
    Step s { s with db := d' } :=
  ⟨hg, fun _ hq => Or.inl (hs ▸ hq), Int.le_refl _⟩

theorem step_act (pg : Postgres) (s : Store) (w : Write) : Step s (act pg s w) := by
  rw [act]
  cases h : exec pg s w with
  | none =>
    exact ⟨grows_of_subset (List.Subset.refl _) rfl, fun q hq => Or.inl hq, Int.le_refl _⟩
  | some s' =>
    rw [Option.getD_some]
    cases w with
    | row st =>
      obtain ⟨d', hd, rfl⟩ := Option.map_eq_some_iff.mp h
      obtain ⟨hg, hs⟩ := grows_statement hd
      exact step_of_same hg hs
    | updateCluster req =>
      obtain ⟨⟨c, d'⟩, hd, rfl⟩ := Option.map_eq_some_iff.mp h
      obtain ⟨info, -, -, ht, -⟩ := updateCluster_eq_some.mp hd
      exact step_of_same (grows_of_update (carried_apply req info) (congrArg Tables.clusters ht)
        (by rw [ht])) (by rw [ht])
    | deleteClusterSoft id now =>
      obtain ⟨d', hd, rfl⟩ := Option.map_eq_some_iff.mp h
      have ht := commit_eq_some.mp hd
      exact step_of_same (grows_of_update (carried_softDeleted now) (congrArg Tables.clusters ht)
        (by rw [ht])) (by rw [ht])
    | createSecret req =>
      obtain ⟨⟨q, t⟩, hd, rfl⟩ := Option.map_eq_some_iff.mp h
      obtain ⟨v, -, hq, hn, ht⟩ := createSecret_eq_some hd
      have hc : t.db.clusters = s.db.clusters := by rw [ht]
      refine ⟨grows_of_subset (by rw [hc]; exact List.Subset.refl _)
        (by rw [ht]), fun q' hq' => ?_, by simp only [hn]; omega⟩
      rw [show t.db.secrets = s.db.secrets ++ [q] from congrArg Tables.secrets ht] at hq'
      rcases List.mem_append.mp hq' with hq' | hq'
      · exact Or.inl hq'
      · rw [List.mem_singleton.mp hq', hq]
        exact Or.inr rfl
    | deleteSecret id =>
      obtain ⟨d', hd, rfl⟩ := Option.map_eq_some_iff.mp h
      have ht := commit_eq_some.mp hd
      have hc : d'.clusters = s.db.clusters := by rw [ht]
      refine ⟨grows_of_subset (by rw [hc]; exact List.Subset.refl _)
        (by rw [ht]), fun q hq => Or.inl ?_, Int.le_refl _⟩
      rw [show d'.secrets = _ from congrArg Tables.secrets ht] at hq
      exact (mem_deleteWhere.mp hq).1
    | others f =>
      obtain ⟨d', hd, rfl⟩ := Option.map_eq_some_iff.mp h
      have ht := commit_eq_some.mp hd
      have hc : d'.clusters = s.db.clusters := by rw [ht]
      exact step_of_same (grows_of_subset (by rw [hc]; exact List.Subset.refl _)
        (by rw [ht])) (by rw [ht])

/-! ## Whole runs -/

/-- Whatever bears the number of the cluster is what is left of it. -/
structure KeepsCluster (c : Cluster) (s : Store) : Prop where
  rows : ∀ c' ∈ s.db.clusters, c'.clusterID = c.clusterID → Carried c c'
  issued : c.clusterID < s.db.nextClusterID

structure KeepsSecret (q : Secret) (s : Store) : Prop where
  rows : ∀ q' ∈ s.db.secrets, q'.secretID = q.secretID → q' = q
  issued : q.secretID < s.nextSecretID

variable {c : Cluster} {q : Secret}

theorem keepsCluster_act (s : Store) (w : Write) (h : KeepsCluster c s) :
    KeepsCluster c (act pg s w) := by
  obtain ⟨hrows, hnext⟩ := (step_act pg s w).clusters
  refine ⟨fun c' hc' hid => ?_, Int.lt_of_lt_of_le h.issued hnext⟩
  rcases hrows c' hc' with ⟨b, hb, hcarried⟩ | hnew
  · exact (h.rows b hb (hcarried.id.symm.trans hid)).trans hcarried
  · have hissued := h.issued
    omega

theorem keepsSecret_act (s : Store) (w : Write) (h : KeepsSecret q s) :
    KeepsSecret q (act pg s w) := by
  have hstep := step_act pg s w
  refine ⟨fun q' hq' hid => ?_, Int.lt_of_lt_of_le h.issued hstep.next⟩
  rcases hstep.secrets q' hq' with hold | hnew
  · exact h.rows q' hold hid
  · have hissued := h.issued
    omega

theorem keepsCluster_run (pg : Postgres) (h : KeepsCluster c s) (ws : List Write) :
    KeepsCluster c (run (act pg) s ws) :=
  run_of (fun s w hs => keepsCluster_act s w hs) h ws

theorem keepsSecret_run (pg : Postgres) (h : KeepsSecret q s) (ws : List Write) :
    KeepsSecret q (run (act pg) s ws) :=
  run_of (fun s w hs => keepsSecret_act s w hs) h ws

theorem keepsCluster_of_mem (h : c ∈ s.db.clusters) : KeepsCluster c s := by
  refine ⟨fun c' hc' hid => ?_, s.db.ok.clusters_issued c h⟩
  rw [eq_of_key_eq s.db.ok.clusters_pkey hc' h hid]
  exact Carried.refl c

theorem keepsSecret_of_mem (h : q ∈ s.db.secrets) (hissued : q.secretID < s.nextSecretID) :
    KeepsSecret q s :=
  ⟨fun _ hq' hid => eq_of_key_eq s.db.ok.secrets_pkey hq' h hid, hissued⟩

theorem getSecret_of_referred (h : KeepsSecret q s) {c' : Cluster} (hc : c' ∈ s.db.clusters)
    (hsecret : c'.secretID = some q.secretID) : getSecret q.secretID s.db = some q := by
  have href := s.db.ok.clusters_secret_fkey c' hc q.secretID (by simp [hsecret])
  obtain ⟨q', hq', hid⟩ := List.mem_map.mp href
  cases hfound : getSecret q.secretID s.db with
  | none =>
    have hno := List.find?_eq_none.mp hfound q' hq'
    simp [hid] at hno
  | some q'' =>
    have hid' : q''.secretID = q.secretID := by simpa using List.find?_some hfound
    rw [h.rows q'' (List.mem_of_find?_eq_some hfound) hid']

end ConsoleStoredRows
