import Autobase.ConsoleHandleCluster

/-! # The flags of a cluster

One bit of the column says whether Patroni ever answered. The watcher computes the column from
the row it read and stores it again with that bit set; nothing else writes it. -/
namespace ConsoleClusterFlags

open ConsoleSchema ConsoleStatements ConsoleServerCount ConsoleHandleCluster RowTables
  TransitionRuns

/-! ## The two accessors -/

theorem getLsbD_maskSet (i : ℕ) : patroniConnectStatusMaskSet.getLsbD i = decide (i = 0) := by
  simp [patroniConnectStatusMaskSet, BitVec.getLsbD_one]

theorem getLsbD_maskRemove {i : ℕ} (hi : i < 32) :
    patroniConnectStatusMaskRemove.getLsbD i = decide (i ≠ 0 ∧ i ≠ 3) := by
  have h : ∀ j : Fin 32,
      patroniConnectStatusMaskRemove.getLsbD j = decide ((j : ℕ) ≠ 0 ∧ (j : ℕ) ≠ 3) := by decide
  exact h ⟨i, hi⟩

/-- The remove mask takes out flag 3 as well. -/
theorem getLsbD_set (mask status : BitVec 32) {i : ℕ} (hi : i < 32) :
    (setPatroniConnectStatus mask status).getLsbD i =
      if i = 0 then status.getLsbD 0 else mask.getLsbD i && decide (i ≠ 3) := by
  rw [setPatroniConnectStatus, BitVec.getLsbD_or, BitVec.getLsbD_and, BitVec.getLsbD_and,
    getLsbD_maskSet, getLsbD_maskRemove hi]
  by_cases h0 : i = 0
  · simp [h0]
  · simp [h0]

theorem get_set (mask status : BitVec 32) :
    (getPatroniConnectStatus (setPatroniConnectStatus mask status)).toNat = status.toNat % 2 := by
  have h : getPatroniConnectStatus (setPatroniConnectStatus mask status) =
      status &&& patroniConnectStatusMaskSet := by
    apply BitVec.eq_of_getLsbD_eq
    intro i hi
    rw [getPatroniConnectStatus, BitVec.getLsbD_and, BitVec.getLsbD_and, getLsbD_set _ _ hi,
      getLsbD_maskSet]
    by_cases h0 : i = 0
    · simp [h0]
    · simp [h0]
  rw [h, BitVec.toNat_and]
  exact Nat.and_one_is_mod status.toNat

theorem set_keeps_iff (mask status : BitVec 32) :
    (∀ i, 0 < i → i < 32 →
      (setPatroniConnectStatus mask status).getLsbD i = mask.getLsbD i) ↔
      mask.getLsbD 3 = false := by
  constructor
  · intro h
    have h3 := h 3 (by omega) (by omega)
    rw [getLsbD_set _ _ (by omega)] at h3
    simpa using h3.symm
  · intro h i hpos hi
    rw [getLsbD_set _ _ hi, if_neg (by omega)]
    by_cases h3 : i = 3
    · rw [h3, h]
      rfl
    · simp [h3]

/-! ## Passes of the watcher -/

/-- No flag but the connection status is cleared on a cluster. -/
def KeepsFlags (d d' : Db) : Prop :=
  ∀ id, ∀ c ∈ getCluster id d, ∃ c' ∈ getCluster id d', ∀ i, 0 < i → i < 32 →
    c.flags.testBit i = true → c'.flags.testBit i = true

/-- The rows are those read so far: a look may be at one that is stale. -/
structure Watching where
  db : Db
  rows : List Cluster

inductive Action where
  | read (clusterID : ℤ)
  | handle (w : Watch) (row : ℕ)

def step (s : Watching) : Action → Watching
  | .read id => { s with rows := s.rows ++ (getCluster id s.db).toList }
  | .handle w n =>
    match s.rows[n]? with
    | none => s
    | some cl => { s with db := handleCluster w cl s.db }

/-- However the passes go on, no flag is cleared between two of their states. -/
def NeverClears (d : Db) : Prop :=
  ∀ before after, KeepsFlags (run step ⟨d, []⟩ before).db (run step ⟨d, []⟩ (before ++ after)).db

/-- Every cluster with flag 3 set has no servers. -/
def FlagThreeUnasked (d : Db) : Prop :=
  ∀ c ∈ d.clusters, c.flags.testBit 3 = true → getClusterServers c.clusterID d = []

/-- The flags of a row but the connection status. -/
def otherFlags (c : Cluster) (i : ℕ) : Bool := decide (0 < i ∧ i < 32) && c.flags.testBit i

theorem otherFlags_of_pos {c : Cluster} {i : ℕ} (hpos : 0 < i) (hi : i < 32) :
    otherFlags c i = c.flags.testBit i := by
  simp [otherFlags, hpos, hi]

theorem otherFlags_set {c cl : Cluster} (h3 : cl.flags.testBit 3 = false)
    (hc : c.flags = (setPatroniConnectStatus (BitVec.ofNat 32 cl.flags) 1).toNat) :
    otherFlags c = otherFlags cl := by
  have hread : ∀ i, i < 32 → (BitVec.ofNat 32 cl.flags).getLsbD i = cl.flags.testBit i := by
    intro i hi
    rw [BitVec.getLsbD_ofNat]
    simp [hi]
  have hset := (set_keeps_iff (BitVec.ofNat 32 cl.flags) 1).mpr ((hread 3 (by omega)).trans h3)
  funext i
  by_cases hi : 0 < i ∧ i < 32
  · rw [otherFlags_of_pos hi.1 hi.2, otherFlags_of_pos hi.1 hi.2, ← hread i hi.2,
      ← hset i hi.1 hi.2, hc]
    rfl
  · simp [otherFlags, hi]

variable {w : Watch} {cl : Cluster} {start d d' : Db}

/-- The clusters are those of the start, up to the connection status. -/
def FlagsOf (start d : Db) : Prop :=
  ∀ id, (getCluster id d).map otherFlags = (getCluster id start).map otherFlags

theorem keepsFlags_of_flagsOf (h : FlagsOf start d) (h' : FlagsOf start d') :
    KeepsFlags d d' := by
  intro id c hc
  have hsame := (h' id).trans (h id).symm
  rw [Option.mem_def.mp hc, Option.map_some] at hsame
  obtain ⟨c', hc', hflags⟩ := Option.map_eq_some_iff.mp hsame
  refine ⟨c', hc', ?_⟩
  intro i hpos hi hset
  rw [← otherFlags_of_pos hpos hi, hflags, otherFlags_of_pos hpos hi, hset]

theorem flagsOf_rowWrite {id : ℤ} (h : RowWrite d d' id) (hd : FlagsOf start d) :
    FlagsOf start d' := by
  intro i
  rw [column_rowWrite (fun _ _ => rfl) h i, hd i]

theorem flagsOf_updateCluster {status : String} {flags : Option ℕ} {c : Cluster}
    (hread : (getCluster cl.clusterID start).map otherFlags = some (otherFlags cl))
    (hflags : ∀ n ∈ flags, ∀ c : Cluster, c.flags = n → otherFlags c = otherFlags cl)
    (h : updateCluster w.pg ⟨cl.clusterID, none, some status, flags⟩ d = some (c, d'))
    (hd : FlagsOf start d) : FlagsOf start d' := by
  obtain ⟨info, -, -, htables, -⟩ := updateCluster_eq_some.mp h
  intro id
  rw [getCluster_updateWhere (keepsKeys_apply _ info) id (congrArg Tables.clusters htables),
    Option.map_map, ← hd id]
  apply Option.map_congr
  intro c₁ hc₁
  simp only [Function.comp]
  split
  · rename_i hid
    have hid₁ : c₁.clusterID = cl.clusterID := of_decide_eq_true hid
    have hget : c₁.clusterID = id := by simpa using List.find?_some hc₁
    cases flags with
    | none => rfl
    | some n =>
      have hstart := hd id
      rw [hc₁, ← hget, hid₁, hread, Option.map_some] at hstart
      rw [hflags n rfl _ rfl]
      exact (Option.some.inj hstart).symm
  · rfl

/-- A cluster without servers is not asked, and its flags are not written. -/
theorem handleCluster_unasked (h : getClusterServers cl.clusterID d = []) :
    handleCluster w cl d = d ∨
      handleCluster w cl d = storeStatus w cl clusterStatusUnavailable none d := by
  have hrows : w.rowOrder (getClusterServers cl.clusterID d) = [] := by
    rw [h]
    exact (w.rowOrder_perm []).eq_nil
  have hmap : w.mapOrder [] = [] := (w.mapOrder_perm []).eq_nil
  rw [handleCluster]
  split
  · exact Or.inl rfl
  · simp only [hrows, handleClusterServers, poll, serversMap, List.map_nil, List.dedup_nil, hmap,
      run_nil]
    split
    · exact Or.inr rfl
    · exact Or.inl rfl

theorem flagsOf_unasked
    (hread : (getCluster cl.clusterID start).map otherFlags = some (otherFlags cl))
    (h : getClusterServers cl.clusterID d = []) (hd : FlagsOf start d) :
    FlagsOf start (handleCluster w cl d) := by
  rcases handleCluster_unasked h with hlook | hlook
  · rw [hlook]
    exact hd
  · rw [hlook]
    apply storeStatus_keeps _ d hd
    intro t t' c hupdate ht
    exact flagsOf_updateCluster hread (fun n hn => by cases hn) hupdate ht

theorem flagsOf_handleCluster
    (hread : (getCluster cl.clusterID start).map otherFlags = some (otherFlags cl))
    (h : cl.flags.testBit 3 = true → getClusterServers cl.clusterID d = [])
    (hd : FlagsOf start d) : FlagsOf start (handleCluster w cl d) := by
  by_cases h3 : cl.flags.testBit 3 = true
  · exact flagsOf_unasked hread (h h3) hd
  · apply handleCluster_keeps _ _ d hd
    · intro t t' hrow ht
      exact flagsOf_rowWrite hrow ht
    · intro status flags t t' c hflags hupdate ht
      apply flagsOf_updateCluster hread _ hupdate ht
      intro n hn c hc
      exact otherFlags_set (by simpa using h3) (hc.trans (hflags n hn))

theorem servers_updateCluster {req : UpdateClusterReq} {c : Cluster}
    (h : updateCluster w.pg req d = some (c, d')) (id : ℤ) :
    getClusterServers id d' = getClusterServers id d := by
  obtain ⟨info, -, -, htables, -⟩ := updateCluster_eq_some.mp h
  rw [getClusterServers, htables]
  rfl

theorem servers_handleCluster {id : ℤ} (h : getClusterServers id d = []) :
    getClusterServers id (handleCluster w cl d) = [] := by
  by_cases hid : id = cl.clusterID
  · subst hid
    rcases handleCluster_unasked h with hlook | hlook
    · rw [hlook, h]
    · rw [hlook]
      apply storeStatus_keeps (I := fun t => getClusterServers cl.clusterID t = []) _ d h
      intro t t' c hupdate ht
      rw [servers_updateCluster hupdate, ht]
  · have hcount : ∀ t : Db, getClusterServers id t = [] ↔ rowCount id t.servers = 0 := by
      intro t
      simp [getClusterServers, rowCount, List.countP_eq_zero]
    refine handleCluster_keeps (I := fun t => getClusterServers id t = []) ?_ ?_ d h
    · intro t t' hrow ht
      rw [hcount] at ht ⊢
      rw [hrow.others id hid, ht]
    · intro status flags t t' c _ hupdate ht
      rw [servers_updateCluster hupdate, ht]

/-! ## Runs -/

/-- What a run leaves of its start. -/
structure Kept (start : Db) (s : Watching) : Prop where
  stored : FlagsOf start s.db
  read : ∀ r ∈ s.rows, (getCluster r.clusterID start).map otherFlags = some (otherFlags r)
  unasked : ∀ c ∈ start.clusters, c.flags.testBit 3 = true →
    getClusterServers c.clusterID s.db = []

theorem kept_start (h : FlagThreeUnasked start) : Kept start ⟨start, []⟩ where
  stored := fun _ => rfl
  read := fun r hr => by cases hr
  unasked := h

theorem kept_step (s : Watching) (a : Action) (hs : Kept start s) : Kept start (step s a) := by
  cases a with
  | read id =>
    refine ⟨hs.stored, ?_, hs.unasked⟩
    intro r hr
    rcases List.mem_append.mp hr with hr | hr
    · exact hs.read r hr
    · have hget : getCluster id s.db = some r := Option.mem_toList.mp hr
      have hid : r.clusterID = id := by simpa using List.find?_some hget
      rw [hid, ← hs.stored id, hget, Option.map_some]
  | handle w n =>
    simp only [step]
    cases hrow : s.rows[n]? with
    | none => exact hs
    | some cl =>
      have hread := hs.read cl (List.mem_of_getElem? hrow)
      refine ⟨?_, hs.read, ?_⟩
      · apply flagsOf_handleCluster hread _ hs.stored
        intro h3
        obtain ⟨c, hc, hflags⟩ := Option.map_eq_some_iff.mp hread
        have hid : c.clusterID = cl.clusterID := by simpa using List.find?_some hc
        rw [← hid]
        apply hs.unasked c (List.mem_of_find?_eq_some hc)
        rw [← otherFlags_of_pos (c := c) (by omega) (by omega), hflags,
          otherFlags_of_pos (by omega) (by omega), h3]
      · intro c hc h3
        exact servers_handleCluster (hs.unasked c hc h3)

theorem neverClears_of_unasked (h : FlagThreeUnasked start) : NeverClears start := by
  intro before after
  have hkept : ∀ as, Kept start (run step ⟨start, []⟩ as) := run_of kept_step (kept_start h)
  exact keepsFlags_of_flagsOf (hkept before).stored (hkept (before ++ after)).stored

theorem flags_storeStatus {status : String} {n : ℕ} {t : Db}
    (hf : w.fails .updateCluster = false) (hc : (getCluster cl.clusterID t).isSome)
    (hstatus : textIn status = true) :
    (getCluster cl.clusterID (storeStatus w cl status (some n) t)).map Cluster.flags = some n := by
  have hsome : (updateCluster w.pg ⟨cl.clusterID, none, some status, some n⟩ t).isSome :=
    updateCluster_isSome.mpr ⟨rfl, by simpa using hstatus, mem_clusterID.mpr hc⟩
  obtain ⟨⟨c, t'⟩, hupdate⟩ := Option.isSome_iff_exists.mp hsome
  obtain ⟨info, -, -, htables, -⟩ := updateCluster_eq_some.mp hupdate
  have hcall : (fun t => (updateCluster w.pg ⟨cl.clusterID, none, some status, some n⟩ t).map
      Prod.snd) t = some t' := by simp [hupdate]
  obtain ⟨c₀, hc₀⟩ := Option.isSome_iff_exists.mp hc
  have hid : c₀.clusterID = cl.clusterID := by simpa using List.find?_some hc₀
  rw [storeStatus, hf, attempt_false hcall,
    getCluster_updateWhere (keepsKeys_apply _ info) _ (congrArg Tables.clusters htables), hc₀]
  simp [hid, UpdateClusterReq.apply]

/-- An answer stores the flags of the row that was read, less flag 3. -/
theorem flags_answered {info : ClusterInfo} (hfails : ∀ c, w.fails c = false)
    (hc : (getCluster cl.clusterID d).isSome)
    (hanswer : poll w 0 (w.rowOrder (getClusterServers cl.clusterID d)) = some (some info)) :
    (getCluster cl.clusterID (handleCluster w cl d)).map Cluster.flags =
      some (setPatroniConnectStatus (BitVec.ofNat 32 cl.flags) 1).toNat := by
  rw [handleCluster_answered hfails hanswer]
  refine resets_keep (I := fun t => (getCluster cl.clusterID t).map Cluster.flags = some _)
    ?_ _ _ ?_
  · intro t t' hrow ht
    rw [column_rowWrite (fun _ _ => rfl) hrow, ht]
  · apply flags_storeStatus (hfails _) _ (textIn_statusFor cl info)
    apply members_keep (I := fun t => (getCluster cl.clusterID t).isSome) _ _ _ hc
    intro t t' hrow ht
    have hcolumn := column_rowWrite (g := fun _ => ()) (fun _ _ => rfl) hrow cl.clusterID
    have hsome := congrArg Option.isSome hcolumn
    rw [Option.isSome_map, Option.isSome_map] at hsome
    rw [hsome, ht]

/-- One look that is answered takes flag 3 off a cluster with servers. -/
theorem not_keepsFlags {c : Cluster} (hc : c ∈ d.clusters) (h3 : c.flags.testBit 3 = true)
    (hservers : getClusterServers c.clusterID d ≠ []) :
    ¬ KeepsFlags d
      (run step ⟨d, []⟩ [.read c.clusterID, .handle (calm (some ⟨[]⟩)) 0]).db := by
  intro h
  have hget : getCluster c.clusterID d = some c := getCluster_of_mem hc
  have hrun : (run step ⟨d, []⟩ [.read c.clusterID, .handle (calm (some ⟨[]⟩)) 0]).db =
      handleCluster (calm (some ⟨[]⟩)) c d := by
    simp [step, hget]
  have hanswer : poll (calm (some ⟨[]⟩)) 0 (getClusterServers c.clusterID d) =
      some (some ⟨[]⟩) := by
    cases hs : getClusterServers c.clusterID d with
    | nil => exact absurd hs hservers
    | cons s servers => rfl
  have hflags := flags_answered (w := calm (some ⟨[]⟩)) (fun _ => rfl) (by simp [hget]) hanswer
  rw [hrun] at h
  obtain ⟨c', hc', hkeeps⟩ := h c.clusterID c hget
  rw [Option.mem_def.mp hc', Option.map_some, Option.some.injEq] at hflags
  have hcleared : (setPatroniConnectStatus (BitVec.ofNat 32 c.flags) 1).getLsbD 3 = false := by
    rw [getLsbD_set _ _ (by omega)]
    simp
  have hkept := hkeeps 3 (by omega) (by omega) h3
  rw [hflags] at hkept
  exact absurd (hcleared.symm.trans hkept) Bool.false_ne_true

/-- The connection status is read back as it was set, the other bits are kept exactly when flag 3
was not set, and no pass clears a flag exactly when every cluster with flag 3 has no servers. -/
theorem cluster_flags_lens_iff (mask status : BitVec 32) (d : Db) :
    (getPatroniConnectStatus (setPatroniConnectStatus mask status)).toNat = status.toNat % 2 ∧
    ((∀ i, 0 < i → i < 32 →
      (setPatroniConnectStatus mask status).getLsbD i = mask.getLsbD i) ↔
        mask.getLsbD 3 = false) ∧
    (NeverClears d ↔ FlagThreeUnasked d) := by
  refine ⟨get_set mask status, set_keeps_iff mask status, ?_, neverClears_of_unasked⟩
  intro h c hc h3
  by_contra hservers
  exact not_keepsFlags hc h3 hservers (h [] _)

/-- The imported cluster with flag 3 set. -/
def flagged : Db where
  toTables := { importedTables with clusters := [{ importedCluster with flags := 8 }] }
  ok := by decide

theorem flag_three_cleared :
    (setPatroniConnectStatus 8 1).getLsbD 3 ≠ (8 : BitVec 32).getLsbD 3 ∧
      ¬ NeverClears flagged := by
  constructor
  · decide
  · intro hnever
    apply not_keepsFlags (d := flagged) List.mem_cons_self (by decide) _ (hnever [] _)
    decide

end ConsoleClusterFlags
