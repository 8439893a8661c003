import Autobase.ConsoleServerCount

/-! # Writing one server row

The upsert and the reset find a row by its cluster and its address. Neither of them changes the
columns of the unique index, so the keys of the table say which of their calls succeed. -/
namespace ConsoleServerWrites

open ConsoleSchema ConsoleStatements ConsoleServerCount RowTables

def keys (d : Db) : List (ℤ × Inet) := d.servers.map Server.key

variable {pg : Postgres} {d d' : Db} {id : ℤ} {ip : Inet}

theorem mem_keys_of_cluster {s : Server} (h : s ∈ getClusterServers id d) :
    (id, s.ipAddress) ∈ keys d := by
  obtain ⟨hs, hid⟩ := List.mem_filter.mp h
  exact List.mem_map.mpr ⟨s, hs, Prod.ext (of_decide_eq_true hid) rfl⟩

theorem any_key_iff : (d.servers.any fun s => decide (s.key = (id, ip))) = true ↔
    (id, ip) ∈ keys d := by
  simp only [List.any_eq_true, decide_eq_true_eq, keys, List.mem_map]

theorem clusterIDs_rowWrite (h : RowWrite d d' id) :
    d'.clusters.map Cluster.clusterID = d.clusters.map Cluster.clusterID := by
  obtain ⟨servers, n, ht⟩ := h.tables
  rw [ht]
  exact map_updateWhere (keepsKeys_serverCount _).id d.clusters

theorem nodup_keys (d : Db) : (keys d).Nodup := d.ok.servers_address_idx

/-! ## The upsert -/

section UpdateServer

variable {req : UpdateServerReq}

theorem key_apply (req : UpdateServerReq) (s : Server) : (req.apply s).key = s.key := rfl

theorem updateServer_isSome : (updateServer pg req d).isSome ↔
    (∃ ip, pg.inetIn req.ipAddress = some ip) ∧ req.accepted pg = true ∧
      req.clusterID ∈ d.clusters.map Cluster.clusterID := by
  rw [updateServer]
  cases hip : pg.inetIn req.ipAddress with
  | none => simp
  | some ip =>
    by_cases haccepted : req.accepted pg = true
    · simp only [Option.bind_some, haccepted, if_true, commit_isSome,
        constraints_updateServerCount, Option.some.injEq, exists_eq', true_and]
      by_cases hkey : (req.clusterID, ip) ∈ keys d
      · rw [if_pos (any_key_iff.mpr hkey)]
        obtain ⟨s, hs, hid⟩ := hit_cluster (any_key_iff.mpr hkey)
        constructor
        · intro _
          exact hid ▸ d.ok.servers_cluster_fkey s hs
        · intro _
          exact constraints_updateServers d.ok (f := req.apply) (fun _ => rfl) (key_apply req) _
            (Int.le_add_one (Int.le_refl _))
      · rw [if_neg (fun h => hkey (any_key_iff.mp h))]
        rw [constraints_appendServer d (s := req.row d.nextServerID ip) rfl]
        constructor
        · intro h
          exact h.1
        · intro h
          exact ⟨h, hkey⟩
    · simp [haccepted]

theorem keys_updateServer (h : updateServer pg req d = some d')
    (hip : pg.inetIn req.ipAddress = some ip) :
    keys d' = if (req.clusterID, ip) ∈ keys d then keys d else keys d ++ [(req.clusterID, ip)] := by
  rw [updateServer, hip, Option.bind_some] at h
  split at h
  · have ht := commit_eq_some.mp h
    split
    · rename_i hkey
      rw [if_pos (any_key_iff.mpr hkey)] at ht
      rw [keys, ht]
      exact map_updateWhere (key_apply req) d.servers
    · rename_i hkey
      rw [if_neg (fun h => hkey (any_key_iff.mp h))] at ht
      rw [keys, ht]
      exact List.map_append
  · cases h

theorem mem_keys_updateServer (h : updateServer pg req d = some d')
    (hip : pg.inetIn req.ipAddress = some ip) {k : ℤ × Inet} :
    k ∈ keys d' ↔ k ∈ keys d ∨ k = (req.clusterID, ip) := by
  rw [keys_updateServer h hip]
  split
  · rename_i hkey
    constructor
    · exact Or.inl
    · rintro (hk | rfl)
      · exact hk
      · exact hkey
  · rw [List.mem_append, List.mem_singleton]

end UpdateServer

/-! ## The reset -/

theorem key_reset (s : Server) : s.reset.key = s.key := rfl

theorem resetServer_isSome {text : String} : (resetServer pg id text d).isSome ↔
    ∃ ip, pg.inetIn text = some ip ∧ (id, ip) ∈ keys d := by
  rw [resetServer]
  cases hip : pg.inetIn text with
  | none => simp
  | some ip =>
    simp only [Option.bind_some, Option.some.injEq, exists_eq_left']
    by_cases hkey : (id, ip) ∈ keys d
    · rw [if_pos (any_key_iff.mpr hkey), commit_isSome, constraints_updateServerCount]
      simp only [hkey, iff_true]
      exact constraints_updateServers d.ok (f := Server.reset) (fun _ => rfl) key_reset _
        (Int.le_refl _)
    · rw [if_neg (fun h => hkey (any_key_iff.mp h))]
      simp [hkey]

theorem keys_resetServer {text : String} (h : resetServer pg id text d = some d') :
    keys d' = keys d := by
  rw [resetServer] at h
  obtain ⟨ip, -, h⟩ := Option.bind_eq_some_iff.mp h
  simp only at h
  split at h
  · have ht := commit_eq_some.mp h
    rw [keys, ht]
    exact map_updateWhere key_reset d.servers
  · cases h

end ConsoleServerWrites
