import Autobase.ConsoleClusterTopology
import Autobase.ConsoleUpdatedServers

/-! # The stored status and the stored count

The watcher compares the answer with the count it read, and its own upserts make the trigger
count again. The two counts lead to one status when they stand alike to the members. -/
namespace ConsoleStatusCount

open ConsoleSchema ConsoleStatements ConsoleServerCount ConsoleServerWrites ConsoleHandleCluster
  ConsoleClusterTopology ConsoleUpdatedServers RowTables TransitionRuns

variable (w : Watch) (cl : Cluster) (info : ClusterInfo) (d : Db)

/-- The stored status is the one the stored count gives. -/
def StatusAgrees : Prop :=
  ∃ c, getCluster cl.clusterID (handleCluster w cl d) = some c ∧ c.clusterStatus = statusFor c info

/-- The rows of the cluster and those of the accepted members, each once. -/
def rowsAfter : List (ℤ × Inet) :=
  ((getClusterServers cl.clusterID d).map Server.key ++
    (info.members.zipIdx.filter (accepts w cl)).filterMap fun x => target w cl x.1.host).dedup

/-- Some row is written: a member is accepted, or the printed address of a row stands for a
row. -/
def RowWritten : Prop :=
  (∃ x ∈ info.members.zipIdx, accepts w cl x = true) ∨
    ∃ s ∈ getClusterServers cl.clusterID d, ∃ k ∈ keys d,
      target w cl (w.ipString s.ipAddress) = some k

/-- Both counts stand alike to the members and to the healthy ones. -/
def SameClass (n m : ℤ) : Prop :=
  (info.members.length < n ↔ info.members.length < m) ∧
    (n ≤ info.members.length → (healthyServers info < n ↔ healthyServers info < m))

instance (n m : ℤ) : Decidable (SameClass info n m) :=
  inferInstanceAs (Decidable ((_ ↔ _) ∧ (_ → (_ ↔ _))))

variable {w cl info d}

theorem statusFor_eq_iff {c : Cluster} :
    statusFor cl info = statusFor c info ↔ SameClass info cl.serverCount c.serverCount := by
  have hdu : clusterStatusDegraded ≠ clusterStatusUnhealthy := by decide
  have hdh : clusterStatusDegraded ≠ clusterStatusHealthy := by decide
  have huh : clusterStatusUnhealthy ≠ clusterStatusHealthy := by decide
  rw [statusFor, statusFor, SameClass]
  by_cases hn : (info.members.length : ℤ) < cl.serverCount
  · have hnot : ¬ cl.serverCount ≤ info.members.length := by omega
    rw [if_pos hn]
    by_cases hm : (info.members.length : ℤ) < c.serverCount
    · simp [hn, hm, hnot]
    · rw [if_neg hm]
      split <;> simp [hn, hm, hdu, hdh]
  · have hle : cl.serverCount ≤ info.members.length := by omega
    rw [if_neg hn]
    by_cases hm : (info.members.length : ℤ) < c.serverCount
    · rw [if_pos hm]
      split <;> simp [hn, hm, hdu.symm, hdh.symm]
    · rw [if_neg hm]
      by_cases hhn : (healthyServers info : ℤ) < cl.serverCount <;>
        by_cases hhm : (healthyServers info : ℤ) < c.serverCount <;>
          simp [hn, hm, hle, hhn, hhm, huh, huh.symm]

/-! ## The count at the end -/

theorem countFollows_update {status : String} {flags : Option ℕ} {t t' : Db} {c : Cluster} {id : ℤ}
    (h : updateCluster w.pg ⟨id, none, some status, flags⟩ t = some (c, t'))
    (ht : CountFollows cl.clusterID t) : CountFollows cl.clusterID t' := by
  obtain ⟨hservers, hclusters⟩ := counted_updateCluster h
  exact countFollows_of_same hservers hclusters ht

theorem countFollows_members {r : Db × List (String × Bool)} {xs : List (Member × ℕ)}
    (hc : cl.clusterID ∈ r.1.clusters.map Cluster.clusterID)
    (h : ∃ x ∈ xs, accepts w cl x = true) :
    CountFollows cl.clusterID (run (updateMember w cl) r xs).1 := by
  obtain ⟨x, hx, haccepts⟩ := h
  refine run_establishes (J := fun t : Db × List (String × Bool) => CountFollows cl.clusterID t.1)
    clusterIDs_updateMember ?_ ?_ hc hx
  · intro t y ht
    exact updateMember_keeps (fun _ _ hw _ => countFollows_rowWrite hw) t y ht
  · intro t ht
    obtain ⟨d', hwrite, -, hstep, -⟩ := updateMember_accepted ht haccepts
    rw [hstep]
    exact countFollows_rowWrite hwrite

/-- A reset that finds its row makes the trigger count. -/
theorem resetUnknown_found (hfails : ∀ c, w.fails c = false) {text : String} {k : ℤ × Inet}
    (htarget : target w cl text = some k) {t : Db} (hk : k ∈ keys t) :
    RowWrite t (resetUnknown w cl t (text, false)) cl.clusterID := by
  obtain ⟨ip, hip, rfl⟩ := Option.map_eq_some_iff.mp htarget
  obtain ⟨t', ht'⟩ := Option.isSome_iff_exists.mp (resetServer_isSome.mpr ⟨ip, hip, hk⟩)
  have hexec : exec w.pg (.resetServer cl.clusterID text) t = some t' := ht'
  rw [resetUnknown, if_neg Bool.false_ne_true, hfails, attempt_false ht']
  exact exec_resetServer hexec

theorem resetUnknown_missing {text : String} {t : Db} (h : ∀ k ∈ keys t, target w cl text ≠ some k)
    (updated : Bool) : resetUnknown w cl t (text, updated) = t := by
  have hnone : resetServer w.pg cl.clusterID text t = none := by
    apply Option.not_isSome_iff_eq_none.mp
    intro hsome
    obtain ⟨ip, hip, hk⟩ := resetServer_isSome.mp hsome
    exact h _ hk (by rw [target, hip, Option.map_some])
  cases updated with
  | true => rfl
  | false => exact attempt_refused (Or.inr hnone)

theorem countFollows_resets (hfails : ∀ c, w.fails c = false) {t : Db}
    {entries : List (String × Bool)} {text : String} (hentry : (text, false) ∈ entries)
    {k : ℤ × Inet} (htarget : target w cl text = some k) (hk : k ∈ keys t) :
    CountFollows cl.clusterID (run (resetUnknown w cl) t entries) := by
  refine run_establishes (I := fun t' => k ∈ keys t') ?_ ?_ ?_ hk hentry
  · intro t' e ht'
    rwa [keys_resetUnknown]
  · intro t' e ht'
    exact resetUnknown_keeps (fun _ _ hw _ => countFollows_rowWrite hw) t' e ht'
  · intro t' ht'
    exact countFollows_rowWrite (resetUnknown_found hfails htarget ht')

/-! ## The look -/

theorem keys_resets (t : Db) (entries : List (String × Bool)) :
    keys (run (resetUnknown w cl) t entries) = keys t :=
  run_of (I := fun t' => keys t' = keys t) (fun t' e ht => (keys_resetUnknown t' e).trans ht) rfl
    entries

theorem mem_keys_handleCluster (hc : cl.clusterID ∈ d.clusters.map Cluster.clusterID)
    (hfails : ∀ c, w.fails c = false)
    (hanswer : poll w 0 (w.rowOrder (getClusterServers cl.clusterID d)) = some (some info))
    {k : ℤ × Inet} : k ∈ keys (handleCluster w cl d) ↔
      k ∈ keys d ∨ ∃ x ∈ info.members.zipIdx, accepts w cl x = true ∧
        target w cl x.1.host = some k := by
  rw [handleCluster_answered hfails hanswer]
  simp only [keys_resets, takeAnswer, keys_storeStatus]
  exact mem_keys_members hc

theorem mem_clusterKeys {id : ℤ} {t : Db} {k : ℤ × Inet} :
    k ∈ (getClusterServers id t).map Server.key ↔ k ∈ keys t ∧ k.1 = id := by
  simp only [List.mem_map, mem_getClusterServers, keys]
  constructor
  · rintro ⟨s, ⟨hs, hid⟩, rfl⟩
    exact ⟨⟨s, hs, rfl⟩, hid⟩
  · rintro ⟨⟨s, hs, rfl⟩, hid⟩
    exact ⟨s, ⟨hs, hid⟩, rfl⟩

theorem mem_rowsAfter {k : ℤ × Inet} : k ∈ rowsAfter w cl info d ↔
    (k ∈ keys d ∧ k.1 = cl.clusterID) ∨
      ∃ x ∈ info.members.zipIdx, accepts w cl x = true ∧ target w cl x.1.host = some k := by
  simp only [rowsAfter, List.mem_dedup, List.mem_append, mem_clusterKeys, List.mem_filterMap,
    List.mem_filter, and_assoc]

theorem target_cluster {text : String} {k : ℤ × Inet} (h : target w cl text = some k) :
    k.1 = cl.clusterID := by
  obtain ⟨ip, -, rfl⟩ := Option.map_eq_some_iff.mp h
  rfl

theorem rowCount_handleCluster (hc : cl.clusterID ∈ d.clusters.map Cluster.clusterID)
    (hfails : ∀ c, w.fails c = false)
    (hanswer : poll w 0 (w.rowOrder (getClusterServers cl.clusterID d)) = some (some info)) :
    rowCount cl.clusterID (handleCluster w cl d).servers = (rowsAfter w cl info d).length := by
  have hnodup : ((getClusterServers cl.clusterID (handleCluster w cl d)).map Server.key).Nodup :=
    (nodup_keys _).sublist (List.filter_sublist.map _)
  have hperm : ((getClusterServers cl.clusterID (handleCluster w cl d)).map Server.key).Perm
      (rowsAfter w cl info d) := by
    apply (List.perm_ext_iff_of_nodup hnodup (List.nodup_dedup _)).mpr
    intro k
    rw [mem_clusterKeys, mem_keys_handleCluster hc hfails hanswer, ← rowsAfter, mem_rowsAfter,
      or_and_right]
    apply or_congr_right
    constructor
    · exact And.left
    · rintro ⟨x, hx, haccepts, htarget⟩
      exact ⟨⟨x, hx, haccepts, htarget⟩, target_cluster htarget⟩
  rw [← hperm.length_eq, List.length_map, getClusterServers, ← List.countP_eq_length_filter,
    rowCount]

/-- A written row makes the stored count the number of rows at the end. -/
theorem countFollows_handleCluster (hc : cl.clusterID ∈ d.clusters.map Cluster.clusterID)
    (hfails : ∀ c, w.fails c = false)
    (hanswer : poll w 0 (w.rowOrder (getClusterServers cl.clusterID d)) = some (some info))
    (hwritten : RowWritten w cl info d) : CountFollows cl.clusterID (handleCluster w cl d) := by
  rw [handleCluster_answered hfails hanswer]
  by_cases hmember : ∃ x ∈ info.members.zipIdx, accepts w cl x = true
  · apply resets_keep (fun _ _ hw _ => countFollows_rowWrite hw)
    apply storeStatus_keeps fun _ _ _ h ht => countFollows_update h ht
    exact countFollows_members hc hmember
  · obtain ⟨s, hs, k, hk, htarget⟩ := hwritten.resolve_left hmember
    refine countFollows_resets hfails ?_ htarget ?_
    · rw [(w.mapOrder_perm _).mem_iff]
      apply (mem_marks hc).mpr
      refine ⟨mem_serversMap.mpr ⟨s, (w.rowOrder_perm _).mem_iff.mpr hs, rfl⟩, ?_⟩
      rintro ⟨x, hx, haccepts, -⟩
      exact hmember ⟨x, hx, haccepts⟩
    · simp only [takeAnswer, keys_storeStatus]
      exact (mem_keys_members hc).mpr (Or.inl hk)

/-- Without a written row the look stores the status and does nothing else. -/
theorem handleCluster_unwritten (hfails : ∀ c, w.fails c = false)
    (hanswer : poll w 0 (w.rowOrder (getClusterServers cl.clusterID d)) = some (some info))
    (hwritten : ¬ RowWritten w cl info d) : handleCluster w cl d =
      storeStatus w cl (statusFor cl info)
        (some (setPatroniConnectStatus (BitVec.ofNat 32 cl.flags) 1).toNat) d := by
  obtain ⟨hmembers, hrows⟩ := not_or.mp hwritten
  have hrun : run (updateMember w cl)
      (d, serversMap w (w.rowOrder (getClusterServers cl.clusterID d))) info.members.zipIdx =
        (d, serversMap w (w.rowOrder (getClusterServers cl.clusterID d))) := by
    apply run_eq_self
    intro x hx
    exact (updateMember_refused fun haccepts => hmembers ⟨x, hx, haccepts⟩).1
  rw [handleCluster_answered hfails hanswer]
  simp only [takeAnswer, hrun]
  apply run_eq_self
  rintro ⟨text, updated⟩ he
  apply resetUnknown_missing
  intro k hk htarget
  have hlisted : (text, updated) ∈ serversMap w (w.rowOrder (getClusterServers cl.clusterID d)) :=
    (w.mapOrder_perm _).mem_iff.mp he
  simp only [serversMap, List.mem_map, List.mem_dedup, Prod.mk.injEq] at hlisted
  obtain ⟨-, ⟨s, hs, rfl⟩, rfl, -⟩ := hlisted
  rw [keys_storeStatus] at hk
  exact hrows ⟨s, (w.rowOrder_perm _).mem_iff.mp hs, k, hk, htarget⟩

/-- The status that is stored is that of the count that was read. -/
theorem status_answered (hstored : getCluster cl.clusterID d = some cl)
    (hfails : ∀ c, w.fails c = false)
    (hanswer : poll w 0 (w.rowOrder (getClusterServers cl.clusterID d)) = some (some info)) :
    storedClusterStatus cl.clusterID (handleCluster w cl d) = some (statusFor cl info) := by
  rw [handleCluster_answered hfails hanswer]
  simp only [storedClusterStatus_resets, takeAnswer]
  apply storedClusterStatus_storeStatus (hfails _)
  · rw [storedClusterStatus_members, storedClusterStatus, hstored]
    rfl
  · exact textIn_statusFor cl info

theorem count_written {c : Cluster} (hc : cl.clusterID ∈ d.clusters.map Cluster.clusterID)
    (hfails : ∀ c, w.fails c = false)
    (hanswer : poll w 0 (w.rowOrder (getClusterServers cl.clusterID d)) = some (some info))
    (hwritten : RowWritten w cl info d)
    (hget : getCluster cl.clusterID (handleCluster w cl d) = some c) :
    c.serverCount = (rowsAfter w cl info d).length := by
  have hrow : ∃ s ∈ (handleCluster w cl d).servers, s.clusterID = cl.clusterID := by
    obtain ⟨s, hs⟩ := exists_server_of_poll hanswer
    have hkey := (mem_keys_handleCluster hc hfails hanswer).mpr
      (Or.inl (mem_keys_of_cluster ((w.rowOrder_perm _).mem_iff.mp hs)))
    obtain ⟨s', hs', hkey'⟩ := List.mem_map.mp hkey
    exact ⟨s', hs', congrArg Prod.fst hkey'⟩
  have hcount := countFollows_handleCluster hc hfails hanswer hwritten hrow c
    (List.mem_of_find?_eq_some hget) (by simpa using List.find?_some hget)
  rw [hcount, rowCount_handleCluster hc hfails hanswer]

theorem count_unwritten {c : Cluster} (hstored : getCluster cl.clusterID d = some cl)
    {status : String} {flags : Option ℕ}
    (hget : getCluster cl.clusterID (storeStatus w cl status flags d) = some c) :
    c.serverCount = cl.serverCount := by
  have hkeep : (getCluster cl.clusterID (storeStatus w cl status flags d)).map Cluster.serverCount =
      some cl.serverCount := by
    apply storeStatus_keeps
      (I := fun t => (getCluster cl.clusterID t).map Cluster.serverCount = some cl.serverCount)
    · intro t t' c h ht
      exact (column_updateCluster (fun _ _ _ => rfl) h cl.clusterID).trans ht
    · rw [hstored, Option.map_some]
  rw [hget, Option.map_some] at hkeep
  exact Option.some.inj hkeep

/-- The stored status and the stored count agree exactly when counting the rows that are there
at the end leads to the status that the count read before leads to. -/
theorem status_agrees_iff (w : Watch) (cl : Cluster) (info : ClusterInfo) (d : Db)
    (hstored : getCluster cl.clusterID d = some cl) (hfails : ∀ c, w.fails c = false)
    (hanswer : poll w 0 (w.rowOrder (getClusterServers cl.clusterID d)) = some (some info)) :
    StatusAgrees w cl info d ↔
      (RowWritten w cl info d →
        SameClass info cl.serverCount (rowsAfter w cl info d).length) := by
  have hc : cl.clusterID ∈ d.clusters.map Cluster.clusterID :=
    List.mem_map_of_mem (List.mem_of_find?_eq_some hstored)
  have hstatus := status_answered hstored hfails hanswer
  obtain ⟨c, hget, hcstatus⟩ := Option.map_eq_some_iff.mp hstatus
  have hagrees : StatusAgrees w cl info d ↔ SameClass info cl.serverCount c.serverCount := by
    rw [← statusFor_eq_iff, ← hcstatus, StatusAgrees]
    constructor
    · rintro ⟨c', hget', hagrees⟩
      obtain rfl := Option.some.inj (hget.symm.trans hget')
      exact hagrees
    · intro hagrees
      exact ⟨c, hget, hagrees⟩
  rw [hagrees]
  by_cases hwritten : RowWritten w cl info d
  · rw [count_written hc hfails hanswer hwritten hget]
    simp only [hwritten, forall_const]
  · rw [handleCluster_unwritten hfails hanswer hwritten] at hget
    rw [count_unwritten hstored hget]
    simp only [hwritten, false_imp_iff, iff_true]
    exact ⟨Iff.rfl, fun _ => Iff.rfl⟩

def replicated : ClusterInfo := ⟨[runningMember "10.0.0.1", runningMember "10.0.0.2"]⟩

/-- One member is new, and its row is counted after the status was stored. -/
theorem status_agrees_new_member :
    (handleCluster (calm (some replicated)) importedCluster imported).servers.length = 2 ∧
      StatusAgrees (calm (some replicated)) importedCluster replicated imported := by
  refine ⟨by decide +kernel, ?_⟩
  refine (status_agrees_iff (calm (some replicated)) importedCluster replicated imported rfl
    (fun _ => rfl) rfl).mpr fun _ => ?_
  decide +kernel

/-- The node of the only row was replaced: one member is reported, its row is the second one. -/
theorem replaced_node_healthy :
    ¬ StatusAgrees (calm (some ⟨[runningMember "10.0.0.2"]⟩)) importedCluster
      ⟨[runningMember "10.0.0.2"]⟩ imported := by
  rintro ⟨c, hget, hstatus⟩
  have hstored := congrArg (Option.map fun c =>
    decide (c.clusterStatus = statusFor c ⟨[runningMember "10.0.0.2"]⟩)) hget
  rw [Option.map_some, decide_eq_true hstatus] at hstored
  revert hstored
  decide +kernel

end ConsoleStatusCount
