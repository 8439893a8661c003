import Autobase.ConsoleSchema

/-! # What a statement does

One lemma a statement: when it succeeds and which tables it leaves. Callers cite these and
never look into the constraints again. -/
namespace ConsoleStatements

open ConsoleSchema RowTables

/-- The constraints see the clusters through five columns. -/
theorem constraints_withClusters {t : Tables} (h : Constraints t) {cs : List Cluster}
    (hid : cs.map Cluster.clusterID = t.clusters.map Cluster.clusterID)
    (hname : cs.map Cluster.clusterName = t.clusters.map Cluster.clusterName)
    (hproject : cs.map Cluster.projectID = t.clusters.map Cluster.projectID)
    (henv : cs.map Cluster.environmentID = t.clusters.map Cluster.environmentID)
    (hsecret : cs.map Cluster.secretID = t.clusters.map Cluster.secretID) :
    Constraints { t with clusters := cs } := by
  have column : ∀ {β : Type} {g : Cluster → β}, cs.map g = t.clusters.map g →
      ∀ c ∈ cs, ∃ c' ∈ t.clusters, g c' = g c := by
    intro β g hg c hc
    exact List.mem_map.mp (hg ▸ List.mem_map_of_mem hc)
  exact { h with
    clusters_pkey := by simpa only [hid] using h.clusters_pkey
    clusters_name_key := by simpa only [hname] using h.clusters_name_key
    clusters_issued := by
      intro c hc
      obtain ⟨c', hc', he⟩ := column hid c hc
      exact he ▸ h.clusters_issued c' hc'
    clusters_project_fkey := by
      intro c hc
      obtain ⟨c', hc', he⟩ := column hproject c hc
      exact he ▸ h.clusters_project_fkey c' hc'
    clusters_environment_fkey := by
      intro c hc
      obtain ⟨c', hc', he⟩ := column henv c hc
      exact he ▸ h.clusters_environment_fkey c' hc'
    clusters_secret_fkey := by
      intro c hc
      obtain ⟨c', hc', he⟩ := column hsecret c hc
      exact he ▸ h.clusters_secret_fkey c' hc'
    servers_cluster_fkey := by simpa only [hid] using h.servers_cluster_fkey
    operations_cluster_fkey := by simpa only [hid] using h.operations_cluster_fkey }

/-- An update of other columns of the clusters. -/
structure KeepsKeys (f : Cluster → Cluster) : Prop where
  id : ∀ c, (f c).clusterID = c.clusterID
  name : ∀ c, (f c).clusterName = c.clusterName
  project : ∀ c, (f c).projectID = c.projectID
  environment : ∀ c, (f c).environmentID = c.environmentID
  secret : ∀ c, (f c).secretID = c.secretID
  deleted : ∀ c, (f c).deletedAt = c.deletedAt

theorem constraints_updateClusters {t : Tables} (h : Constraints t) {f : Cluster → Cluster}
    (hf : KeepsKeys f) (p : Cluster → Bool) :
    Constraints { t with clusters := updateWhere p f t.clusters } :=
  constraints_withClusters h (map_updateWhere hf.id _) (map_updateWhere hf.name _)
    (map_updateWhere hf.project _) (map_updateWhere hf.environment _)
    (map_updateWhere hf.secret _)

theorem keepsKeys_serverCount (n : ℤ) : KeepsKeys fun c => { c with serverCount := n } :=
  ⟨fun _ => rfl, fun _ => rfl, fun _ => rfl, fun _ => rfl, fun _ => rfl, fun _ => rfl⟩

theorem constraints_updateServerCount (new : Option ℤ) {t : Tables} :
    Constraints (updateServerCount new t) ↔ Constraints t := by
  have hf := keepsKeys_serverCount (t.servers.countP fun s => decide (new = some s.clusterID))
  constructor
  · intro h
    -- the trigger leaves the five columns, so the old rows satisfy what the new ones do
    exact constraints_withClusters h (map_updateWhere hf.id _).symm (map_updateWhere hf.name _).symm
      (map_updateWhere hf.project _).symm (map_updateWhere hf.environment _).symm
      (map_updateWhere hf.secret _).symm
  · intro h
    exact constraints_updateClusters h hf _

/-! ## Servers -/

def newServer (req : CreateServerReq) (id : ℤ) (ip : Inet) : Server :=
  ⟨id, req.clusterID, req.serverName, req.serverLocation, some "N/A", some "N/A", ip, none, none,
    none, some false⟩

theorem constraints_appendServer (d : Db) {s : Server} (hs : s.serverID = d.nextServerID) :
    Constraints { d.toTables with
      servers := d.servers ++ [s]
      nextServerID := d.nextServerID + 1 } ↔
    s.clusterID ∈ d.clusters.map Cluster.clusterID ∧ s.key ∉ d.servers.map Server.key := by
  constructor
  · intro h
    refine ⟨h.servers_cluster_fkey _ (List.mem_append_right _ (List.mem_singleton.mpr rfl)), ?_⟩
    have hn := h.servers_address_idx
    simp only [List.map_append, List.nodup_append] at hn
    intro hm
    exact hn.2.2 _ hm _ (List.mem_singleton.mpr rfl) rfl
  · rintro ⟨hc, hk⟩
    have hd := d.ok
    have hid : s.serverID ∉ d.servers.map Server.serverID := by
      intro hm
      obtain ⟨q, hq, he⟩ := List.mem_map.mp hm
      have hissued := hd.servers_issued q hq
      omega
    exact { hd with
      servers_pkey := by
        simp only [List.map_append, List.map_cons, List.map_nil]
        exact List.Nodup.append hd.servers_pkey (List.nodup_singleton _)
          (List.disjoint_singleton.mpr hid)
      servers_issued := by
        intro q hq
        rcases List.mem_append.mp hq with hq | hq
        · exact Int.lt_add_one_of_le (Int.le_of_lt (hd.servers_issued q hq))
        · rw [List.mem_singleton.mp hq, hs]
          exact Int.lt_add_one_of_le (Int.le_refl _)
      servers_address_idx := by
        simp only [List.map_append, List.map_cons, List.map_nil]
        exact List.Nodup.append hd.servers_address_idx (List.nodup_singleton _)
          (List.disjoint_singleton.mpr hk)
      servers_cluster_fkey := by
        intro q hq
        rcases List.mem_append.mp hq with hq | hq
        · exact hd.servers_cluster_fkey q hq
        · rw [List.mem_singleton.mp hq]
          exact hc }

theorem constraints_newServer (d : Db) (req : CreateServerReq) (ip : Inet) :
    Constraints { d.toTables with
      servers := d.servers ++ [newServer req d.nextServerID ip]
      nextServerID := d.nextServerID + 1 } ↔
    req.clusterID ∈ d.clusters.map Cluster.clusterID ∧
      (req.clusterID, ip) ∉ d.servers.map Server.key :=
  constraints_appendServer d rfl

/-- An update of other columns of the servers. -/
theorem constraints_updateServers {t : Tables} (h : Constraints t) {f : Server → Server}
    (hid : ∀ s, (f s).serverID = s.serverID) (hkey : ∀ s, (f s).key = s.key)
    (p : Server → Bool) {n : ℤ} (hn : t.nextServerID ≤ n) :
    Constraints { t with servers := updateWhere p f t.servers, nextServerID := n } := by
  have hids := map_updateWhere (p := p) hid t.servers
  have hkeys := map_updateWhere (p := p) hkey t.servers
  have hclusters := map_updateWhere (p := p) (g := Server.clusterID)
    (fun s => congrArg Prod.fst (hkey s)) t.servers
  exact { h with
    servers_pkey := by simpa only [hids] using h.servers_pkey
    servers_issued := by
      intro s hs
      have hmem : s.serverID ∈ (updateWhere p f t.servers).map Server.serverID :=
        List.mem_map_of_mem hs
      rw [hids] at hmem
      obtain ⟨q, hq, he⟩ := List.mem_map.mp hmem
      exact he ▸ Int.lt_of_lt_of_le (h.servers_issued q hq) hn
    servers_address_idx := by simpa only [hkeys] using h.servers_address_idx
    servers_cluster_fkey := by
      intro s hs
      have hmem : s.clusterID ∈ (updateWhere p f t.servers).map Server.clusterID :=
        List.mem_map_of_mem hs
      rw [hclusters] at hmem
      obtain ⟨q, hq, he⟩ := List.mem_map.mp hmem
      exact he ▸ h.servers_cluster_fkey q hq }

/-- The address the server would be stored under, if the values fit their columns. -/
def storableAddress (pg : Postgres) (req : CreateServerReq) : Option Inet :=
  if textIn req.serverName && req.serverLocation.all textIn then pg.inetIn req.ipAddress
  else none

theorem createServer_eq_some {pg : Postgres} {req : CreateServerReq} {d d' : Db} {s : Server} :
    createServer pg req d = some (s, d') ↔
      ∃ ip, storableAddress pg req = some ip ∧ s = newServer req d.nextServerID ip ∧
        d'.toTables = updateServerCount (some req.clusterID) { d.toTables with
          servers := d.servers ++ [newServer req d.nextServerID ip]
          nextServerID := d.nextServerID + 1 } := by
  rw [createServer, storableAddress]
  cases hip : pg.inetIn req.ipAddress with
  | none => simp
  | some ip =>
    by_cases ht : (textIn req.serverName && req.serverLocation.all textIn) = true
    · simp only [Option.bind_some, ht, if_true, Option.map_eq_some_iff, commit_eq_some]
      constructor
      · rintro ⟨e, he, hp⟩
        obtain ⟨rfl, rfl⟩ := Prod.mk.inj hp
        exact ⟨ip, rfl, rfl, he⟩
      · rintro ⟨_, hip', rfl, he⟩
        obtain rfl := Option.some.inj hip'
        exact ⟨d', he, rfl⟩
    · simp [ht]

theorem createServer_isSome {pg : Postgres} {req : CreateServerReq} {d : Db} :
    (createServer pg req d).isSome ↔
      ∃ ip, storableAddress pg req = some ip ∧
        req.clusterID ∈ d.clusters.map Cluster.clusterID ∧
        (req.clusterID, ip) ∉ d.servers.map Server.key := by
  rw [createServer, storableAddress]
  cases hip : pg.inetIn req.ipAddress with
  | none => simp
  | some ip =>
    by_cases ht : (textIn req.serverName && req.serverLocation.all textIn) = true
    · have hc := constraints_newServer d req ip
      rw [← constraints_updateServerCount (some req.clusterID), ← commit_isSome] at hc
      simpa [ht, newServer] using hc
    · simp [ht]

/-! ## Clusters -/

theorem createCluster_eq_some {pg : Postgres} {req : CreateClusterReq} {now : ℕ} {d d' : Db}
    {c : Cluster} : createCluster pg req now d = some (c, d') ↔
      req.accepted pg = true ∧ c = req.row d.nextClusterID now ∧
        d'.toTables = { d.toTables with
          clusters := d.clusters ++ [req.row d.nextClusterID now]
          nextClusterID := d.nextClusterID + 1 } := by
  rw [createCluster]
  by_cases ha : req.accepted pg = true
  · simp only [ha, if_true, Option.map_eq_some_iff, commit_eq_some, true_and]
    constructor
    · rintro ⟨e, he, hp⟩
      obtain ⟨rfl, rfl⟩ := Prod.mk.inj hp
      exact ⟨rfl, he⟩
    · rintro ⟨rfl, he⟩
      exact ⟨d', he, rfl⟩
  · simp [ha]

theorem keepsKeys_apply (req : UpdateClusterReq) (info) : KeepsKeys (req.apply info) :=
  ⟨fun _ => rfl, fun _ => rfl, fun _ => rfl, fun _ => rfl, fun _ => rfl, fun _ => rfl⟩

theorem mem_clusterID {id : ℤ} {d : Db} :
    id ∈ d.clusters.map Cluster.clusterID ↔ (getCluster id d).isSome := by
  simp [getCluster, List.find?_isSome]

theorem getCluster_of_mem {c : Cluster} {d : Db} (h : c ∈ d.clusters) :
    getCluster c.clusterID d = some c := by
  obtain ⟨c', hc'⟩ := Option.isSome_iff_exists.mp (mem_clusterID.mp (List.mem_map_of_mem h))
  have hid : c'.clusterID = c.clusterID := by simpa using List.find?_some hc'
  rw [hc', eq_of_key_eq d.ok.clusters_pkey (List.mem_of_find?_eq_some hc') h hid]

theorem getCluster_updateWhere {p : Cluster → Bool} {f : Cluster → Cluster} (hf : KeepsKeys f)
    (id : ℤ) {d d' : Db} (h : d'.clusters = updateWhere p f d.clusters) :
    getCluster id d' = (getCluster id d).map fun c => if p c then f c else c := by
  rw [getCluster]
  rw [h]
  exact find?_updateWhere (fun c => by simp [hf.id]) d.clusters

theorem updateCluster_eq_some {pg : Postgres} {req : UpdateClusterReq} {d d' : Db} {c : Cluster} :
    updateCluster pg req d = some (c, d') ↔
      ∃ info, req.storedInfo pg = some info ∧ req.status.all textIn = true ∧
        d'.toTables = { d.toTables with
          clusters := updateWhere (fun c => decide (c.clusterID = req.id)) (req.apply info)
            d.clusters } ∧
        getCluster req.id d' = some c := by
  rw [updateCluster]
  cases hi : req.storedInfo pg with
  | none => simp
  | some info =>
    by_cases ht : req.status.all textIn = true
    · simp only [Option.bind_some, ht, if_true, Option.bind_eq_some_iff, Option.map_eq_some_iff,
        commit_eq_some]
      constructor
      · rintro ⟨e, he, c', hc, hp⟩
        obtain ⟨rfl, rfl⟩ := Prod.mk.inj hp
        exact ⟨info, rfl, trivial, he, hc⟩
      · rintro ⟨_, hi', _, he, hc⟩
        obtain rfl := Option.some.inj hi'
        exact ⟨d', he, c, hc, rfl⟩
    · simp [ht]

theorem updateCluster_isSome {pg : Postgres} {req : UpdateClusterReq} {d : Db} :
    (updateCluster pg req d).isSome ↔
      (req.storedInfo pg).isSome ∧ req.status.all textIn = true ∧
        req.id ∈ d.clusters.map Cluster.clusterID := by
  rw [updateCluster]
  cases hi : req.storedInfo pg with
  | none => simp
  | some info =>
    by_cases ht : req.status.all textIn = true
    · have hc := constraints_updateClusters d.ok (keepsKeys_apply req info)
        fun c => decide (c.clusterID = req.id)
      obtain ⟨d', hd'⟩ := Option.isSome_iff_exists.mp (commit_isSome.mpr hc)
      have hcl : d'.clusters = _ := congrArg Tables.clusters (commit_eq_some.mp hd')
      have hg := getCluster_updateWhere (keepsKeys_apply req info) req.id hcl
      simp [ht, hd', hg, mem_clusterID, Option.isSome_map]
    · simp [ht]

/-- The columns that only a creation or a deletion writes. -/
def identity (c : Cluster) : ℤ × String × Option ℕ := (c.clusterID, c.clusterName, c.deletedAt)

def KeepsClusters (d d' : Db) : Prop := d'.clusters.map identity = d.clusters.map identity

theorem KeepsClusters.trans {d d' d'' : Db} (h : KeepsClusters d d') (h' : KeepsClusters d' d'') :
    KeepsClusters d d'' :=
  Eq.trans h' h

theorem KeepsClusters.ids {d d' : Db} (h : KeepsClusters d d') :
    d'.clusters.map Cluster.clusterID = d.clusters.map Cluster.clusterID := by
  have hfst := congrArg (List.map Prod.fst) h
  rw [List.map_map, List.map_map] at hfst
  exact hfst

theorem keepsClusters_of_updateWhere {p : Cluster → Bool} {f : Cluster → Cluster}
    (hf : KeepsKeys f) {d d' : Db} (h : d'.clusters = updateWhere p f d.clusters) :
    KeepsClusters d d' := by
  rw [KeepsClusters]
  rw [h, map_updateWhere]
  intro c
  simp only [identity, hf.id, hf.name, hf.deleted]

/-! ## Operations -/

theorem updateOperation_eq_some {req : UpdateOperationReq} {d d' : Db} :
    updateOperation req d = some d' ↔
      req.status.all textIn = true ∧ req.logs.all textIn = true ∧ (getOperation req.id d).isSome ∧
        d'.toTables = { d.toTables with
          operations := updateWhere (fun o => decide (o.id = req.id)) req.apply d.operations } := by
  rw [updateOperation, getOperation]
  simp only [List.find?_isSome, ← List.any_eq_true]
  by_cases h : (req.status.all textIn && req.logs.all textIn &&
      d.operations.any fun o => decide (o.id = req.id)) = true
  · simp only [h, if_true, commit_eq_some]
    simp only [Bool.and_eq_true] at h
    simp [h]
  · simp only [h]
    simp only [Bool.and_eq_true, not_and] at h
    constructor
    · intro hn
      cases hn
    · rintro ⟨h₁, h₂, h₃, _⟩
      exact absurd h₃ (h ⟨h₁, h₂⟩)

/-- A new status has to pass the CHECK constraint, everything else about the row is kept. -/
theorem updateOperation_isSome {id : ℤ} {status : String} {d : Db}
    (ho : (getOperation id d).isSome) :
    (updateOperation ⟨id, some status, none⟩ d).isSome ↔ status ∈ operationStatuses := by
  have hany : (d.operations.any fun o => decide (o.id = id)) = true := by
    simpa [getOperation, List.find?_isSome] using ho
  have hconstraints : Constraints { d.toTables with
      operations := updateWhere (fun o => decide (o.id = id))
        (UpdateOperationReq.apply ⟨id, some status, none⟩) d.operations } ↔
      status ∈ operationStatuses := by
    constructor
    · intro h
      obtain ⟨o, hm, hid⟩ := List.any_eq_true.mp hany
      exact h.operations_status_check _ (mem_updateWhere.mpr ⟨o, hm, by rw [if_pos hid]⟩)
    · intro hs
      have hd := d.ok
      have hmap : ∀ {β : Type} {g : Operation → β},
          (∀ o, g (UpdateOperationReq.apply ⟨id, some status, none⟩ o) = g o) →
          ∀ o' ∈ updateWhere (fun o => decide (o.id = id))
            (UpdateOperationReq.apply ⟨id, some status, none⟩) d.operations,
          ∃ o ∈ d.operations, g o = g o' := by
        intro β g hg o' ho'
        exact List.mem_map.mp (map_updateWhere hg d.operations ▸ List.mem_map_of_mem ho')
      exact { hd with
        operations_pkey := by
          have hid : ∀ o, (UpdateOperationReq.apply ⟨id, some status, none⟩ o).id = o.id :=
            fun _ => rfl
          simpa only [map_updateWhere hid] using hd.operations_pkey
        operations_issued := by
          intro o' ho'
          obtain ⟨o, hm, he⟩ := hmap (g := Operation.id) (fun _ => rfl) o' ho'
          exact he ▸ hd.operations_issued o hm
        operations_cluster_fkey := by
          intro o' ho'
          obtain ⟨o, hm, he⟩ := hmap (g := Operation.clusterID) (fun _ => rfl) o' ho'
          exact he ▸ hd.operations_cluster_fkey o hm
        operations_project_fkey := by
          intro o' ho'
          obtain ⟨o, hm, he⟩ := hmap (g := Operation.projectID) (fun _ => rfl) o' ho'
          exact he ▸ hd.operations_project_fkey o hm
        operations_docker_code := by
          intro o' ho'
          obtain ⟨o, hm, he⟩ := hmap (g := Operation.dockerCode) (fun _ => rfl) o' ho'
          exact he ▸ hd.operations_docker_code o hm
        operations_status_check := by
          intro o' ho'
          obtain ⟨o, hm, rfl⟩ := mem_updateWhere.mp ho'
          split
          · exact hs
          · exact hd.operations_status_check o hm }
  have htext : status ∈ operationStatuses → textIn status = true := by
    intro hs
    simp only [operationStatuses, List.mem_cons, List.not_mem_nil, or_false] at hs
    rcases hs with rfl | rfl | rfl <;> decide
  rw [updateOperation]
  by_cases ht : textIn status = true
  · simp [hany, ht, commit_isSome, hconstraints]
  · have hs : status ∉ operationStatuses := fun hm => ht (htext hm)
    simp [ht, hs]

theorem apply_id (req : UpdateOperationReq) (o : Operation) : (req.apply o).id = o.id := rfl

theorem getOperation_updateWhere {p : Operation → Bool} {f : Operation → Operation}
    (hf : ∀ o, (f o).id = o.id) (id : ℤ) {d d' : Db}
    (h : d'.operations = updateWhere p f d.operations) :
    getOperation id d' = (getOperation id d).map fun o => if p o then f o else o := by
  rw [getOperation]
  rw [h]
  exact find?_updateWhere (fun o => by simp [hf]) d.operations

theorem createOperation_eq_some {pg : Postgres} {req : CreateOperationReq} {now : ℕ} {d d' : Db}
    {o : Operation} : createOperation pg req now d = some (o, d') ↔
      (textIn req.dockerCode && textIn req.type && pg.uuidIn req.cid) = true ∧
        o = req.row d.nextOperationID now ∧ d'.toTables = { d.toTables with
          operations := d.operations ++ [req.row d.nextOperationID now]
          nextOperationID := d.nextOperationID + 1 } := by
  rw [createOperation]
  by_cases ht : (textIn req.dockerCode && textIn req.type && pg.uuidIn req.cid) = true
  · simp only [ht, if_true, Option.map_eq_some_iff, commit_eq_some, true_and]
    constructor
    · rintro ⟨e, he, hp⟩
      obtain ⟨rfl, rfl⟩ := Prod.mk.inj hp
      exact ⟨rfl, he⟩
    · rintro ⟨rfl, he⟩
      exact ⟨d', he, rfl⟩
  · simp [ht]

theorem createOperation_isSome {pg : Postgres} {req : CreateOperationReq} {now : ℕ} {d : Db}
    (hc : req.clusterID ∈ d.clusters.map Cluster.clusterID)
    (hp : req.projectID ∈ d.projects.map Project.projectID) :
    (createOperation pg req now d).isSome ↔
      (textIn req.dockerCode && textIn req.type && pg.uuidIn req.cid) = true ∧
        req.dockerCode.length ≤ 80 := by
  have hconstraints : Constraints { d.toTables with
      operations := d.operations ++ [req.row d.nextOperationID now]
      nextOperationID := d.nextOperationID + 1 } ↔ req.dockerCode.length ≤ 80 := by
    constructor
    · intro h
      exact h.operations_docker_code _ (List.mem_append_right _ (List.mem_singleton.mpr rfl))
    · intro hl
      have hd := d.ok
      have hid : d.nextOperationID ∉ d.operations.map Operation.id := by
        intro hm
        obtain ⟨o, ho, he⟩ := List.mem_map.mp hm
        exact absurd (he ▸ hd.operations_issued o ho) (Int.lt_irrefl _)
      have hall : ∀ {P : Operation → Prop}, (∀ o ∈ d.operations, P o) →
          P (req.row d.nextOperationID now) →
          ∀ o ∈ d.operations ++ [req.row d.nextOperationID now], P o := by
        intro P hold hnew o ho
        rcases List.mem_append.mp ho with ho | ho
        · exact hold o ho
        · exact List.mem_singleton.mp ho ▸ hnew
      exact { hd with
        operations_pkey := by
          simp only [List.map_append, List.map_cons, List.map_nil]
          exact List.Nodup.append hd.operations_pkey (List.nodup_singleton _)
            (List.disjoint_singleton.mpr hid)
        operations_issued := hall
          (fun o ho => Int.lt_add_one_of_le (Int.le_of_lt (hd.operations_issued o ho)))
          (Int.lt_add_one_of_le (Int.le_refl _))
        operations_cluster_fkey := hall hd.operations_cluster_fkey hc
        operations_project_fkey := hall hd.operations_project_fkey hp
        operations_docker_code := hall hd.operations_docker_code hl
        operations_status_check := hall hd.operations_status_check
          (show operationStatusInProgress ∈ operationStatuses by decide) }
  rw [createOperation]
  by_cases ht : (textIn req.dockerCode && textIn req.type && pg.uuidIn req.cid) = true
  · simp only [ht, if_true, Option.isSome_map, commit_isSome, true_and]
    exact hconstraints
  · simp [ht]

/-- What an operation is about, which no update writes. -/
def assignment (o : Operation) : ℤ × ℤ × String := (o.id, o.clusterID, o.dockerCode)

theorem assignment_apply (req : UpdateOperationReq) (o : Operation) :
    assignment (req.apply o) = assignment o := rfl

def KeepsOperations (d d' : Db) : Prop :=
  d'.operations.map assignment = d.operations.map assignment

/-! ## Stored statuses -/

/-- An error of the call is logged and the run goes on. -/
def attempt (fails : Bool) (call : Db → Option Db) (d : Db) : Db :=
  if fails then d else (call d).getD d

variable {pg : Postgres} {d : Db}

def storedStatus (id : ℤ) (d : Db) : Option String :=
  (getOperation id d).map Operation.operationStatus

def storedClusterStatus (id : ℤ) (d : Db) : Option String :=
  (getCluster id d).map Cluster.clusterStatus

/-- A column that an update leaves alone in every row. -/
theorem column_updateWhere {β : Type} {g : Cluster → β} {p : Cluster → Bool}
    {f : Cluster → Cluster} (hf : KeepsKeys f) (hg : ∀ c, g (f c) = g c) {d d' : Db}
    (h : d'.clusters = updateWhere p f d.clusters) (id : ℤ) :
    (getCluster id d').map g = (getCluster id d).map g := by
  rw [getCluster_updateWhere hf id h, Option.map_map]
  congr 1
  funext c
  simp only [Function.comp]
  split
  · exact hg c
  · rfl

/-- A server changes no column of the cluster but the count. -/
theorem column_createServer {β : Type} {g : Cluster → β}
    (hg : ∀ (c : Cluster) (n : ℤ), g { c with serverCount := n } = g c) {req : CreateServerReq}
    {s : Server} {d d' : Db} (h : createServer pg req d = some (s, d')) (id : ℤ) :
    (getCluster id d').map g = (getCluster id d).map g := by
  obtain ⟨ip, -, -, ht⟩ := createServer_eq_some.mp h
  exact column_updateWhere (keepsKeys_serverCount _) (fun c => hg c _)
    (congrArg Tables.clusters ht) id

theorem column_updateCluster {β : Type} {g : Cluster → β}
    (hg : ∀ (req : UpdateClusterReq) info c, g (req.apply info c) = g c) {req : UpdateClusterReq}
    {c : Cluster} {d d' : Db} (h : updateCluster pg req d = some (c, d')) (id : ℤ) :
    (getCluster id d').map g = (getCluster id d).map g := by
  obtain ⟨info, -, -, ht, -⟩ := updateCluster_eq_some.mp h
  exact column_updateWhere (keepsKeys_apply req info) (hg req info)
    (congrArg Tables.clusters ht) id

theorem storedClusterStatus_createServer {req : CreateServerReq} {s : Server} {d d' : Db}
    (h : createServer pg req d = some (s, d')) (id : ℤ) :
    storedClusterStatus id d' = storedClusterStatus id d :=
  column_createServer (fun _ _ => rfl) h id

theorem attempt_false {call : Db → Option Db} {d' : Db} (h : call d = some d') :
    attempt false call d = d' := by
  simp [attempt, h]

theorem attempt_refused {fails : Bool} {call : Db → Option Db}
    (h : fails = true ∨ call d = none) : attempt fails call d = d := by
  rcases h with rfl | h
  · rfl
  · simp [attempt, h]

/-- What holds now and after the call holds after an attempt of it. -/
theorem attempt_keeps {I : Db → Prop} {fails : Bool} {call : Db → Option Db} (hd : I d)
    (h : ∀ d', call d = some d' → I d') : I (attempt fails call d) := by
  cases hcall : call d with
  | none =>
    rw [attempt_refused (Or.inr hcall)]
    exact hd
  | some d' =>
    cases fails with
    | true => exact hd
    | false =>
      rw [attempt_false hcall]
      exact h d' hcall

theorem attempt_cluster_keeps {I : Db → Prop} {fails : Bool} {req : UpdateClusterReq} (hd : I d)
    (h : ∀ c d', updateCluster pg req d = some (c, d') → I d') :
    I (attempt fails (fun d => (updateCluster pg req d).map Prod.snd) d) := by
  refine attempt_keeps hd fun d' hcall => ?_
  obtain ⟨⟨c, d''⟩, hu, rfl⟩ := Option.map_eq_some_iff.mp hcall
  exact h c d'' hu

theorem operations_attempt_cluster (fails : Bool) (req : UpdateClusterReq) :
    (attempt fails (fun d => (updateCluster pg req d).map Prod.snd) d).operations =
      d.operations := by
  refine attempt_cluster_keeps (I := fun t => t.operations = d.operations) rfl fun c d' hu => ?_
  obtain ⟨info, -, -, ht, -⟩ := updateCluster_eq_some.mp hu
  rw [ht]

theorem storedStatus_attempt_cluster (id : ℤ) (fails : Bool) (req : UpdateClusterReq) :
    storedStatus id (attempt fails (fun d => (updateCluster pg req d).map Prod.snd) d) =
      storedStatus id d := by
  simp only [storedStatus, getOperation, operations_attempt_cluster]

theorem getCluster_attempt_operation (id : ℤ) (fails : Bool) (req : UpdateOperationReq) :
    getCluster id (attempt fails (updateOperation req) d) = getCluster id d := by
  refine attempt_keeps (I := fun t => getCluster id t = getCluster id d) rfl fun d' hu => ?_
  obtain ⟨-, -, -, ht⟩ := updateOperation_eq_some.mp hu
  simp only [getCluster, ht]

theorem storedStatus_updateOperation {id : ℤ} {status : String}
    (ho : (getOperation id d).isSome) (fails : Bool) :
    storedStatus id (attempt fails (updateOperation ⟨id, some status, none⟩) d) =
      if fails = false ∧ status ∈ operationStatuses then some status else storedStatus id d := by
  have hiff : (updateOperation ⟨id, some status, none⟩ d).isSome ↔ status ∈ operationStatuses :=
    updateOperation_isSome ho
  by_cases hw : fails = false ∧ status ∈ operationStatuses
  · obtain ⟨rfl, hs⟩ := hw
    obtain ⟨d', hd'⟩ := Option.isSome_iff_exists.mp (hiff.mpr hs)
    obtain ⟨-, -, -, ht⟩ := updateOperation_eq_some.mp hd'
    obtain ⟨o, hg⟩ := Option.isSome_iff_exists.mp ho
    have hid : o.id = id := by simpa using List.find?_some hg
    have hg' := getOperation_updateWhere (apply_id _) id (congrArg Tables.operations ht)
    rw [attempt_false hd', if_pos ⟨rfl, hs⟩, storedStatus, hg', hg]
    simp [hid, UpdateOperationReq.apply]
  · rw [if_neg hw, attempt_refused]
    by_cases hf : fails = true
    · exact Or.inl hf
    · refine Or.inr (Option.not_isSome_iff_eq_none.mp fun hsome => hw ⟨by simpa using hf, ?_⟩)
      exact hiff.mp hsome

/-- The update of one operation is not seen through the key of another. -/
theorem storedStatus_other {id id' : ℤ} (hne : id' ≠ id) (fails : Bool) (status : String) :
    storedStatus id' (attempt fails (updateOperation ⟨id, some status, none⟩) d) =
      storedStatus id' d := by
  refine attempt_keeps (I := fun t => storedStatus id' t = storedStatus id' d) rfl fun d' hu => ?_
  obtain ⟨-, -, -, ht⟩ := updateOperation_eq_some.mp hu
  have hg := getOperation_updateWhere (apply_id _) id' (congrArg Tables.operations ht)
  rw [storedStatus, hg, storedStatus, Option.map_map]
  cases hf : getOperation id' d with
  | none => rfl
  | some o =>
    have hid : o.id = id' := by simpa using List.find?_some hf
    simp [hid, hne]

theorem storedClusterStatus_updateCluster {id : ℤ} {status : String} {flags : Option ℕ}
    (hc : id ∈ d.clusters.map Cluster.clusterID) (ht : textIn status = true) :
    storedClusterStatus id (attempt false
      (fun d => (updateCluster pg ⟨id, none, some status, flags⟩ d).map Prod.snd) d) =
      some status := by
  have hsome : (updateCluster pg ⟨id, none, some status, flags⟩ d).isSome :=
    updateCluster_isSome.mpr ⟨rfl, by simpa using ht, hc⟩
  obtain ⟨⟨c, d'⟩, hd'⟩ := Option.isSome_iff_exists.mp hsome
  obtain ⟨info, -, -, htab, hg⟩ := updateCluster_eq_some.mp hd'
  have hbefore := getCluster_updateWhere (keepsKeys_apply _ info) id
    (congrArg Tables.clusters htab)
  obtain ⟨c₀, hc₀⟩ := Option.isSome_iff_exists.mp (mem_clusterID.mp hc)
  have hid : c₀.clusterID = id := by simpa using List.find?_some hc₀
  have hcall : (fun d => (updateCluster pg ⟨id, none, some status, flags⟩ d).map Prod.snd) d =
      some d' := by simp [hd']
  rw [attempt_false hcall, storedClusterStatus, hbefore, hc₀]
  simp [hid, UpdateClusterReq.apply]

theorem keepsClusters_attempt_cluster (fails : Bool) (req : UpdateClusterReq) :
    KeepsClusters d (attempt fails (fun d => (updateCluster pg req d).map Prod.snd) d) := by
  refine attempt_cluster_keeps (I := KeepsClusters d) rfl fun c d' hu => ?_
  obtain ⟨info, -, -, ht, -⟩ := updateCluster_eq_some.mp hu
  exact keepsClusters_of_updateWhere (keepsKeys_apply _ info) (congrArg Tables.clusters ht)

theorem keepsClusters_attempt_operation (fails : Bool) (req : UpdateOperationReq) :
    KeepsClusters d (attempt fails (updateOperation req) d) := by
  refine attempt_keeps (I := KeepsClusters d) rfl fun d' hu => ?_
  obtain ⟨-, -, -, ht⟩ := updateOperation_eq_some.mp hu
  rw [KeepsClusters, ht]

/-! ## Soft deletion -/

/-- The name a deleted cluster gets must be free. -/
theorem deleteClusterSoft_isSome {id : ℤ} {now : ℕ}
    (hfresh : ∀ c ∈ d.clusters, c.clusterID = id →
      ∀ c' ∈ d.clusters, c'.clusterName ≠ (softDeleted pg now c).clusterName) :
    (deleteClusterSoft pg id now d).isSome := by
  rw [deleteClusterSoft, commit_isSome]
  have hrow : ∀ c ∈ updateWhere (fun c => decide (c.clusterID = id)) (softDeleted pg now) d.clusters,
      ∃ b ∈ d.clusters, c.clusterID = b.clusterID ∧ c.projectID = b.projectID ∧
        c.environmentID = b.environmentID ∧ (c.secretID = b.secretID ∨ c.secretID = none) := by
    intro c hc
    obtain ⟨b, hb, rfl⟩ := mem_updateWhere.mp hc
    refine ⟨b, hb, ?_⟩
    split
    · exact ⟨rfl, rfl, rfl, Or.inr rfl⟩
    · exact ⟨rfl, rfl, rfl, Or.inl rfl⟩
  have hids := map_updateWhere (p := fun c : Cluster => decide (c.clusterID = id))
    (f := softDeleted pg now) (g := Cluster.clusterID) (fun _ => rfl) d.clusters
  have hnames : ((updateWhere (fun c => decide (c.clusterID = id)) (softDeleted pg now)
      d.clusters).map Cluster.clusterName).Nodup := by
    rw [updateWhere, List.map_map]
    apply List.Nodup.map_on _ (List.Nodup.of_map _ d.ok.clusters_pkey)
    intro a ha b hb hab
    by_cases hia : a.clusterID = id <;> by_cases hib : b.clusterID = id
    · exact eq_of_key_eq d.ok.clusters_pkey ha hb (hia.trans hib.symm)
    · simp only [Function.comp, hia, hib, decide_true, decide_false, if_true] at hab
      exact absurd hab.symm (hfresh a ha hia b hb)
    · simp only [Function.comp, hia, hib, decide_true, decide_false, if_true] at hab
      exact absurd hab (hfresh b hb hib a ha)
    · simp only [Function.comp, hia, hib, decide_false] at hab
      exact eq_of_key_eq d.ok.clusters_name_key ha hb hab
  exact { d.ok with
    clusters_pkey := by simpa only [hids] using d.ok.clusters_pkey
    clusters_name_key := hnames
    clusters_issued := by
      intro c hc
      obtain ⟨b, hb, hid, -⟩ := hrow c hc
      exact hid ▸ d.ok.clusters_issued b hb
    clusters_project_fkey := by
      intro c hc
      obtain ⟨b, hb, -, hproject, -⟩ := hrow c hc
      exact hproject ▸ d.ok.clusters_project_fkey b hb
    clusters_environment_fkey := by
      intro c hc
      obtain ⟨b, hb, -, -, henv, -⟩ := hrow c hc
      exact henv ▸ d.ok.clusters_environment_fkey b hb
    clusters_secret_fkey := by
      intro c hc
      obtain ⟨b, hb, -, -, -, hsecret⟩ := hrow c hc
      rcases hsecret with hsecret | hsecret
      · exact hsecret ▸ d.ok.clusters_secret_fkey b hb
      · rw [hsecret]
        intro i hi
        cases hi
    servers_cluster_fkey := by simpa only [hids] using d.ok.servers_cluster_fkey
    operations_cluster_fkey := by simpa only [hids] using d.ok.operations_cluster_fkey }

end ConsoleStatements
