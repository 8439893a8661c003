import Autobase.ConsoleHandleCluster
import Autobase.ConsoleServerWrites

/-! # The rows one look updates and resets

A member of the answer is marked as updated under its host as Patroni spells it, and the rows
are listed under their printed addresses. A row is spared by the resets when the two texts
agree. -/
namespace ConsoleUpdatedServers

open ConsoleSchema ConsoleStatements ConsoleServerCount ConsoleServerWrites ConsoleHandleCluster
  RowTables TransitionRuns

variable (w : Watch) (cl : Cluster)

/-! ## The writes of a look -/

/-- The row of the cluster that an address text stands for. -/
def target (text : String) : Option (ℤ × Inet) :=
  (w.pg.inetIn text).map fun ip => (cl.clusterID, ip)

/-- The row a member's upsert writes. -/
def updatedRow (r : Db × List (String × Bool)) (x : Member × ℕ) : List (ℤ × Inet) :=
  match if w.fails (.updateServer x.2) then none
    else updateServer w.pg (x.1.request cl.clusterID) r.1 with
  | none => []
  | some _ => (target w cl x.1.host).toList

/-- The row a reset writes. -/
def resetRow (d : Db) (entry : String × Bool) : List (ℤ × Inet) :=
  if entry.2 then []
  else match if w.fails (.resetServer entry.1) then none
    else resetServer w.pg cl.clusterID entry.1 d with
  | none => []
  | some _ => (target w cl entry.1).toList

structure Writes where
  updated : List (ℤ × Inet)
  reset : List (ℤ × Inet)

def writesOfAnswer (info : ClusterInfo) (servers : List Server) (d : Db) : Writes :=
  let start := (d, serversMap w servers)
  let r := takeAnswer w cl info start
  ⟨trace (updateMember w cl) (updatedRow w cl) start info.members.zipIdx,
    trace (resetUnknown w cl) (resetRow w cl) r.1 (w.mapOrder r.2)⟩

def writesOfServers (servers : List Server) (d : Db) : Writes :=
  match poll w 0 servers with
  | none => ⟨[], []⟩
  | some (some info) => writesOfAnswer w cl info servers d
  | some none =>
    let d' :=
      if getPatroniConnectStatus (BitVec.ofNat 32 cl.flags) = 1 then
        storeStatus w cl clusterStatusUnavailable none d
      else d
    ⟨[], trace (resetUnknown w cl) (resetRow w cl) d' (w.mapOrder (serversMap w servers))⟩

/-- The rows written while the watcher looks at a cluster. -/
def writesOfLook (d : Db) : Writes :=
  if w.fails .getClusterServers then ⟨[], []⟩
  else writesOfServers w cl (w.rowOrder (getClusterServers cl.clusterID d)) d

/-- No row that was updated is reset. -/
def SparesUpdated (d : Db) : Prop :=
  ∀ k ∈ (writesOfLook w cl d).updated, k ∉ (writesOfLook w cl d).reset

/-- The upsert of a member is carried out: the call does not fail, the host is an address and
the values fit their columns. -/
def accepts (x : Member × ℕ) : Bool :=
  !w.fails (.updateServer x.2) && (w.pg.inetIn x.1.host).isSome &&
    (x.1.request cl.clusterID).accepted w.pg

/-- Where an upsert writes the row that a printed address stands for, the reset of that address
fails or some upsert has marked exactly that text. -/
def SpelledAsPrinted (info : ClusterInfo) (servers : List Server) : Prop :=
  ∀ s ∈ servers, ∀ x ∈ info.members.zipIdx, accepts w cl x = true →
    w.pg.inetIn (w.ipString s.ipAddress) = w.pg.inetIn x.1.host →
      w.fails (.resetServer (w.ipString s.ipAddress)) = true ∨
        ∃ y ∈ info.members.zipIdx, accepts w cl y = true ∧ y.1.host = w.ipString s.ipAddress

/-! ## The upserts -/

variable {w cl} {d : Db}

theorem accepts_iff {x : Member × ℕ} : accepts w cl x = true ↔
    w.fails (.updateServer x.2) = false ∧ (∃ ip, w.pg.inetIn x.1.host = some ip) ∧
      (x.1.request cl.clusterID).accepted w.pg = true := by
  simp only [accepts, Bool.and_eq_true, Bool.not_eq_true', Option.isSome_iff_exists, and_assoc]

/-- What an accepted member does to the table, its marks and the record of writes. -/
theorem updateMember_accepted {r : Db × List (String × Bool)} {x : Member × ℕ}
    (hc : cl.clusterID ∈ r.1.clusters.map Cluster.clusterID) (hx : accepts w cl x = true) :
    ∃ d', RowWrite r.1 d' cl.clusterID ∧
      (∀ k, k ∈ keys d' ↔ k ∈ keys r.1 ∨ target w cl x.1.host = some k) ∧
      updateMember w cl r x = (d', setUpdated x.1.host r.2) ∧
      updatedRow w cl r x = (target w cl x.1.host).toList := by
  obtain ⟨hfails, ⟨ip, hip⟩, haccepted⟩ := accepts_iff.mp hx
  obtain ⟨d', hd'⟩ := Option.isSome_iff_exists.mp
    (updateServer_isSome.mpr ⟨⟨ip, hip⟩, haccepted, hc⟩)
  have hexec : exec w.pg (.updateServer (x.1.request cl.clusterID)) r.1 = some d' := hd'
  have hcall : (if w.fails (.updateServer x.2) = true then none
      else updateServer w.pg (x.1.request cl.clusterID) r.1) = some d' := by
    rw [hfails, if_neg Bool.false_ne_true, hd']
  refine ⟨d', exec_updateServer hexec, ?_, ?_, ?_⟩
  · intro k
    rw [mem_keys_updateServer hd' hip, target, hip, Option.map_some, Option.some.injEq, eq_comm]
    rfl
  · rw [updateMember, hcall]
  · rw [updatedRow, hcall]

theorem updateMember_refused {r : Db × List (String × Bool)} {x : Member × ℕ}
    (hx : ¬ accepts w cl x = true) :
    updateMember w cl r x = r ∧ updatedRow w cl r x = [] := by
  have hcall : (if w.fails (.updateServer x.2) = true then none
      else updateServer w.pg (x.1.request cl.clusterID) r.1) = none := by
    cases hfails : w.fails (.updateServer x.2) with
    | true => rfl
    | false =>
      rw [if_neg Bool.false_ne_true]
      apply Option.not_isSome_iff_eq_none.mp
      intro hsome
      obtain ⟨hip, haccepted, -⟩ := updateServer_isSome.mp hsome
      exact hx (accepts_iff.mpr ⟨hfails, hip, haccepted⟩)
  constructor
  · rw [updateMember, hcall]
  · rw [updatedRow, hcall]

/-- The cluster is still there after a member. -/
theorem clusterIDs_updateMember (r : Db × List (String × Bool)) (x : Member × ℕ)
    (hc : cl.clusterID ∈ r.1.clusters.map Cluster.clusterID) :
    cl.clusterID ∈ (updateMember w cl r x).1.clusters.map Cluster.clusterID :=
  updateMember_keeps (I := fun t => cl.clusterID ∈ t.clusters.map Cluster.clusterID)
    (fun _ _ hw h => (clusterIDs_rowWrite hw).symm ▸ h) r x hc

theorem mem_updated {r : Db × List (String × Bool)} {xs : List (Member × ℕ)}
    (hc : cl.clusterID ∈ r.1.clusters.map Cluster.clusterID) {k : ℤ × Inet} :
    k ∈ trace (updateMember w cl) (updatedRow w cl) r xs ↔
      ∃ x ∈ xs, accepts w cl x = true ∧ target w cl x.1.host = some k := by
  have htrace : trace (updateMember w cl) (updatedRow w cl) r xs =
      xs.flatMap fun x => if accepts w cl x then (target w cl x.1.host).toList else [] := by
    apply trace_eq_flatMap (I := fun r => cl.clusterID ∈ r.1.clusters.map Cluster.clusterID)
      clusterIDs_updateMember ?_ hc
    intro r x hc
    by_cases hx : accepts w cl x = true
    · obtain ⟨-, -, -, -, hrow⟩ := updateMember_accepted hc hx
      rw [if_pos hx, hrow]
    · rw [if_neg hx, (updateMember_refused hx).2]
  rw [htrace, List.mem_flatMap]
  apply exists_congr
  intro x
  by_cases hx : accepts w cl x = true
  · simp [hx]
  · simp [hx]

theorem mem_keys_members {r : Db × List (String × Bool)} {xs : List (Member × ℕ)}
    (hc : cl.clusterID ∈ r.1.clusters.map Cluster.clusterID) {k : ℤ × Inet} :
    k ∈ keys (run (updateMember w cl) r xs).1 ↔
      k ∈ keys r.1 ∨ ∃ x ∈ xs, accepts w cl x = true ∧ target w cl x.1.host = some k := by
  refine run_gains clusterIDs_updateMember (P := fun t => k ∈ keys t.1) (fun t x hc => ?_) hc xs
  by_cases hx : accepts w cl x = true
  · obtain ⟨d', -, hkeys, hstep, -⟩ := updateMember_accepted hc hx
    rw [hstep, hkeys k]
    simp only [hx, true_and]
  · rw [(updateMember_refused hx).1]
    simp only [hx, Bool.false_eq_true, false_and, or_false]

/-! ## The marks -/

theorem mem_setUpdated {host text : String} {entries : List (String × Bool)} :
    (text, false) ∈ setUpdated host entries ↔ (text, false) ∈ entries ∧ host ≠ text := by
  rw [setUpdated]
  split
  · rw [mem_updateWhere]
    constructor
    · rintro ⟨e, he, heq⟩
      by_cases hhost : e.1 = host
      · simp [hhost] at heq
      · rw [if_neg (by simpa using hhost)] at heq
        subst heq
        exact ⟨he, fun h => hhost h.symm⟩
    · rintro ⟨he, hne⟩
      exact ⟨_, he, by simp [Ne.symm hne]⟩
  · rename_i hnone
    rw [List.mem_append]
    constructor
    · rintro (he | he)
      · refine ⟨he, fun h => hnone ?_⟩
        simp only [List.any_eq_true, decide_eq_true_eq]
        exact ⟨_, he, h.symm⟩
      · simp at he
    · rintro ⟨he, -⟩
      exact Or.inl he

/-- A printed address stays unmarked while no accepted member spells it so. -/
theorem mem_marks {r : Db × List (String × Bool)} {xs : List (Member × ℕ)}
    (hc : cl.clusterID ∈ r.1.clusters.map Cluster.clusterID) {text : String} :
    (text, false) ∈ (run (updateMember w cl) r xs).2 ↔
      (text, false) ∈ r.2 ∧ ¬ ∃ x ∈ xs, accepts w cl x = true ∧ x.1.host = text := by
  have hmarked : (text, false) ∉ (run (updateMember w cl) r xs).2 ↔
      (text, false) ∉ r.2 ∨ ∃ x ∈ xs, accepts w cl x = true ∧ x.1.host = text := by
    refine run_gains clusterIDs_updateMember (P := fun t => (text, false) ∉ t.2)
      (fun t x hc => ?_) hc xs
    by_cases hx : accepts w cl x = true
    · obtain ⟨d', -, -, hstep, -⟩ := updateMember_accepted hc hx
      rw [hstep, mem_setUpdated]
      simp only [hx, true_and, not_and_or, not_not, ne_eq]
    · rw [(updateMember_refused hx).1]
      simp only [hx, Bool.false_eq_true, false_and, or_false]
  rw [← not_iff_not, hmarked, not_and_or, not_not]

theorem mem_serversMap {servers : List Server} {text : String} :
    (text, false) ∈ serversMap w servers ↔ ∃ s ∈ servers, w.ipString s.ipAddress = text := by
  simp [serversMap]

/-! ## The resets -/

theorem keys_resetUnknown (d : Db) (entry : String × Bool) :
    keys (resetUnknown w cl d entry) = keys d := by
  rw [resetUnknown]
  split
  · rfl
  · exact attempt_keeps (I := fun t => keys t = keys d) rfl fun d' => keys_resetServer

theorem resetRow_eq (d : Db) (entry : String × Bool) : resetRow w cl d entry =
    if entry.2 = false ∧ w.fails (.resetServer entry.1) = false then
      ((target w cl entry.1).filter fun k => decide (k ∈ keys d)).toList
    else [] := by
  rw [resetRow]
  by_cases hupdated : entry.2 = true
  · simp [hupdated]
  · have hupdated : entry.2 = false := by simpa using hupdated
    by_cases hfails : w.fails (.resetServer entry.1) = true
    · simp [hupdated, hfails]
    · have hfails : w.fails (.resetServer entry.1) = false := by simpa using hfails
      simp only [hupdated, hfails, Bool.false_eq_true, if_false, and_self, if_true]
      by_cases hsome : (resetServer w.pg cl.clusterID entry.1 d).isSome
      · obtain ⟨ip, hip, hkey⟩ := resetServer_isSome.mp hsome
        obtain ⟨d', hd'⟩ := Option.isSome_iff_exists.mp hsome
        rw [hd', target, hip, Option.map_some, Option.filter_some, if_pos (decide_eq_true hkey)]
      · rw [Option.not_isSome_iff_eq_none.mp hsome]
        cases hip : w.pg.inetIn entry.1 with
        | none => simp [target, hip]
        | some ip =>
          have hkey : (cl.clusterID, ip) ∉ keys d := fun hkey =>
            hsome (resetServer_isSome.mpr ⟨ip, hip, hkey⟩)
          simp [target, hip, hkey]

theorem mem_reset {entries : List (String × Bool)} {k : ℤ × Inet} :
    k ∈ trace (resetUnknown w cl) (resetRow w cl) d entries ↔
      ∃ text, (text, false) ∈ entries ∧ w.fails (.resetServer text) = false ∧
        target w cl text = some k ∧ k ∈ keys d := by
  have htrace : trace (resetUnknown w cl) (resetRow w cl) d entries =
      entries.flatMap (resetRow w cl d) := by
    apply trace_eq_flatMap (I := fun t => keys t = keys d) ?_ ?_ rfl
    · intro t e ht
      exact (keys_resetUnknown t e).trans ht
    · intro t e ht
      rw [resetRow_eq, resetRow_eq, ht]
  rw [htrace, List.mem_flatMap]
  constructor
  · rintro ⟨⟨text, updated⟩, he, hk⟩
    rw [resetRow_eq] at hk
    split at hk
    · rename_i hif
      obtain ⟨rfl, hfails⟩ : updated = false ∧ _ := hif
      obtain ⟨htarget, hkey⟩ := Option.filter_eq_some_iff.mp (Option.mem_toList.mp hk)
      exact ⟨text, he, hfails, htarget, of_decide_eq_true hkey⟩
    · cases hk
  · rintro ⟨text, he, hfails, htarget, hkey⟩
    refine ⟨(text, false), he, ?_⟩
    rw [resetRow_eq, if_pos ⟨rfl, hfails⟩]
    apply Option.mem_toList.mpr
    exact Option.filter_eq_some_iff.mpr ⟨htarget, decide_eq_true hkey⟩

theorem keys_storeStatus (status : String) (flags : Option ℕ) (d : Db) :
    keys (storeStatus w cl status flags d) = keys d := by
  refine storeStatus_keeps (I := fun t => keys t = keys d) ?_ d rfl
  intro t t' c hupdate ht
  obtain ⟨info, -, -, htables, -⟩ := updateCluster_eq_some.mp hupdate
  rw [← ht, keys, htables]
  rfl

/-! ## No updated row is reset -/

theorem mem_reset_answer {info : ClusterInfo} {servers : List Server}
    (hc : cl.clusterID ∈ d.clusters.map Cluster.clusterID) {k : ℤ × Inet} :
    k ∈ (writesOfAnswer w cl info servers d).reset ↔
      ∃ s ∈ servers, (¬ ∃ y ∈ info.members.zipIdx, accepts w cl y = true ∧
          y.1.host = w.ipString s.ipAddress) ∧
        w.fails (.resetServer (w.ipString s.ipAddress)) = false ∧
        target w cl (w.ipString s.ipAddress) = some k ∧
        (k ∈ keys d ∨ ∃ x ∈ info.members.zipIdx, accepts w cl x = true ∧
          target w cl x.1.host = some k) := by
  simp only [writesOfAnswer, takeAnswer, mem_reset, (w.mapOrder_perm _).mem_iff]
  constructor
  · rintro ⟨text, hentry, hfails, htarget, hkey⟩
    obtain ⟨hlisted, hunmarked⟩ := (mem_marks hc).mp hentry
    obtain ⟨s, hs, rfl⟩ := mem_serversMap.mp hlisted
    rw [keys_storeStatus] at hkey
    exact ⟨s, hs, hunmarked, hfails, htarget, (mem_keys_members hc).mp hkey⟩
  · rintro ⟨s, hs, hunmarked, hfails, htarget, hkey⟩
    refine ⟨w.ipString s.ipAddress, ?_, hfails, htarget, ?_⟩
    · exact (mem_marks hc).mpr ⟨mem_serversMap.mpr ⟨s, hs, rfl⟩, hunmarked⟩
    · rw [keys_storeStatus]
      exact (mem_keys_members hc).mpr hkey

theorem sparesUpdated_answer {info : ClusterInfo} {servers : List Server}
    (hc : cl.clusterID ∈ d.clusters.map Cluster.clusterID) :
    (∀ k ∈ (writesOfAnswer w cl info servers d).updated,
        k ∉ (writesOfAnswer w cl info servers d).reset) ↔
      SpelledAsPrinted w cl info servers := by
  have hupdated : ∀ k, k ∈ (writesOfAnswer w cl info servers d).updated ↔
      ∃ x ∈ info.members.zipIdx, accepts w cl x = true ∧ target w cl x.1.host = some k :=
    fun k => mem_updated (r := (d, serversMap w servers)) hc
  constructor
  · intro hspares s hs x hx haccepts hsame
    obtain ⟨-, ⟨ip, hip⟩, -⟩ := accepts_iff.mp haccepts
    have hhost : target w cl x.1.host = some (cl.clusterID, ip) := by
      rw [target, hip, Option.map_some]
    have hprinted : target w cl (w.ipString s.ipAddress) = some (cl.clusterID, ip) := by
      rw [target, hsame, hip, Option.map_some]
    apply or_iff_not_imp_left.mpr
    intro hfails
    by_contra hunmarked
    apply hspares (cl.clusterID, ip) ((hupdated _).mpr ⟨x, hx, haccepts, hhost⟩)
    rw [mem_reset_answer hc]
    exact ⟨s, hs, hunmarked, Bool.eq_false_iff.mpr hfails, hprinted,
      Or.inr ⟨x, hx, haccepts, hhost⟩⟩
  · intro hspelled k hk hreset
    obtain ⟨x, hx, haccepts, hhost⟩ := (hupdated k).mp hk
    obtain ⟨s, hs, hunmarked, hfails, hprinted, -⟩ := (mem_reset_answer hc).mp hreset
    have hsame : w.pg.inetIn (w.ipString s.ipAddress) = w.pg.inetIn x.1.host := by
      obtain ⟨ip, hip, rfl⟩ := Option.map_eq_some_iff.mp hhost
      obtain ⟨ip', hip', heq⟩ := Option.map_eq_some_iff.mp hprinted
      rw [hip, hip', (Prod.mk.inj heq).2]
    rcases hspelled s hs x hx haccepts hsame with hreset | hmarked
    · rw [hfails] at hreset
      exact Bool.false_ne_true hreset
    · exact hunmarked hmarked

theorem exists_server_of_poll {n : ℕ} {servers : List Server} {info : ClusterInfo}
    (h : poll w n servers = some (some info)) : ∃ s, s ∈ servers := by
  cases servers with
  | nil => cases h
  | cons s servers => exact ⟨s, List.mem_cons_self⟩

/-- A server that answers is a row, and its cluster is stored. -/
theorem cluster_of_poll {servers : List Server}
    (hservers : servers ⊆ getClusterServers cl.clusterID d) {n : ℕ} {info : ClusterInfo}
    (h : poll w n servers = some (some info)) :
    cl.clusterID ∈ d.clusters.map Cluster.clusterID := by
  obtain ⟨s, hs⟩ := exists_server_of_poll h
  obtain ⟨hrow, hid⟩ := List.mem_filter.mp (hservers hs)
  exact of_decide_eq_true hid ▸ d.ok.servers_cluster_fkey s hrow

/-- A look spares the rows it updated exactly when the hosts of the answer are spelled as the
addresses of the rows are printed. -/
theorem sparesUpdated_iff (w : Watch) (cl : Cluster) (d : Db) :
    SparesUpdated w cl d ↔ (w.fails .getClusterServers = false → ∀ info,
      poll w 0 (w.rowOrder (getClusterServers cl.clusterID d)) = some (some info) →
        SpelledAsPrinted w cl info (getClusterServers cl.clusterID d)) := by
  have hperm := w.rowOrder_perm (getClusterServers cl.clusterID d)
  rw [SparesUpdated, writesOfLook]
  cases w.fails .getClusterServers with
  | true => simp
  | false =>
    simp only [Bool.false_eq_true, if_false, forall_const, writesOfServers]
    cases hpoll : poll w 0 (w.rowOrder (getClusterServers cl.clusterID d)) with
    | none => simp
    | some answer =>
      cases answer with
      | none => simp
      | some info =>
        have hc := cluster_of_poll hperm.subset hpoll
        simp only [Option.some.injEq, forall_eq']
        rw [sparesUpdated_answer hc]
        simp only [SpelledAsPrinted, hperm.mem_iff]

/-! ## Another spelling -/

/-- Patroni runs on a host whose address it spells with capital letters. -/
def capitalWatch : Watch :=
  { calm (some ⟨[runningMember "FD00::1"]⟩) with
    pg := { acceptAll with
      inetIn := fun text => some (if text = "FD00::1" then "fd00::1" else text) } }

def ipv6Tables : Tables :=
  { importedTables with
    servers := [⟨1, 1, "node", none, some "N/A", some "N/A", "fd00::1", none, none, none,
      some false⟩] }

theorem ipv6Tables_ok : Constraints ipv6Tables := by decide

/-- The only member is updated and reset in one look. -/
theorem capital_host_reset :
    ¬ SparesUpdated capitalWatch importedCluster ⟨ipv6Tables, ipv6Tables_ok⟩ :=
  fun h => h (1, "fd00::1") (by decide +kernel) (by decide +kernel)

end ConsoleUpdatedServers
