import Autobase.ConsolePostCluster
import Autobase.ConsoleLogWatcher

/-! # The path of the log file

The creator of a container and the watcher derive the path from the name of the cluster, at
different times. In between other requests may create clusters, and a deletion renames one. -/
namespace ConsoleLogPaths

open ConsoleSchema ConsoleStatements ConsolePostCluster ConsoleLogWatcher RowTables TransitionRuns

/-- Of several assignments to one variable a container sees the last. -/
def envValue (key : String) (envs : List String) : Option String :=
  envs.reverse.findSome? fun kv =>
    match splitAssignment kv.toList with
    | some (k, v) => if k = key.toList then some (String.ofList v) else none
    | none => none

def logFileVar : String := "ANSIBLE_JSON_LOG_FILE"

inductive Stage where
  | created
  | started (code : String)
  | recorded

/-- A POST that has written its row; the envs are those it will pass to docker. -/
structure Request where
  clusterID : ℤ
  projectID : ℤ
  envs : List String
  stage : Stage

structure Container where
  code : String
  clusterID : ℤ
  envs : List String

structure State where
  db : Db
  requests : List Request
  containers : List Container

/-- The handler up to the row of the cluster. -/
def beginPost (C : Circumstances) (b : Body) (d : Db) : Option (Prepared × ℤ × Db) :=
  if !C.fails .getClusterByName && (getClusterByName b.name d).isSome then none
  else match secretOf C b d with
    | .error _ => none
    | .ok secret =>
      let p := prepare C b secret (getProxySetting C d)
      if C.fails .createCluster then none
      else (createCluster C.pg (createReq C b p) C.now d).map fun r => (p, r.1.clusterID, r.2)

/-- A request may stop after any of its steps. -/
inductive Event where
  | create (C : Circumstances) (b : Body)
  | start (request : ℕ) (code : String)
  | record (request : ℕ) (cid : String) (now : ℕ)
  | delete (clusterID : ℤ) (now : ℕ)
  | watch (operationID : ℤ) (w : Conditions)

def setStage (s : State) (i : ℕ) (r : Request) (stage : Stage) : List Request :=
  s.requests.set i { r with stage := stage }

/-- An operation that the watcher may take up. -/
def watched (id : ℤ) (d : Db) : Option Operation :=
  (getOperation id d).filter fun o => decide (o.operationStatus = operationStatusInProgress)

def act (S : Setup) (s : State) : Event → State
  | .create C b =>
    match beginPost C b s.db with
    | none => s
    | some (p, id, d) =>
      if b.existingCluster then { s with db := d }
      else { s with
        db := d
        requests := s.requests ++ [⟨id, b.projectID, p.envs, .created⟩] }
  | .start i code =>
    match s.requests[i]? with
    | some ⟨id, project, envs, .created⟩ =>
      -- docker never issues a code twice
      if code ∈ s.containers.map Container.code then s
      else { s with
        requests := setStage s i ⟨id, project, envs, .created⟩ (.started code)
        containers := s.containers ++ [⟨code, id, envs⟩] }
    | _ => s
  | .record i cid now =>
    match s.requests[i]? with
    | some ⟨id, project, envs, .started code⟩ =>
      match createOperation S.pg ⟨project, id, code, operationTypeDeploy, cid⟩ now s.db with
      | none => s
      | some (_, d) => { s with
          db := d
          requests := setStage s i ⟨id, project, envs, .started code⟩ .recorded }
    | _ => s
  | .delete id now =>
    match deleteClusterSoft S.pg id now s.db with
    | none => s
    | some d => { s with db := d }
  | .watch id w =>
    match watched id s.db with
    | none => s
    | some op => { s with db := collectContainerLog S w op s.db }

/-- A log file opened by the watcher, and the path its container was given. -/
structure Opened where
  path : String
  passed : Option String

def opens (S : Setup) (s : State) : Event → List Opened
  | .watch id w =>
    match watched id s.db with
    | none => []
    | some op =>
      if w.fails .getCluster then []
      else match getCluster op.clusterID s.db with
        | none => []
        | some cluster =>
          [⟨logPath S cluster, (s.containers.find? fun k => decide (k.code = op.dockerCode)).bind
            fun k => envValue logFileVar k.envs⟩]
  | _ => []

/-- The log directory is mounted at a fixed place, so two paths are one file when they agree
below it. -/
def SameFile (S : Setup) (o : Opened) : Prop :=
  ∃ below, o.passed = some (ansibleLogDir ++ below) ∧ o.path = S.logDir ++ below

/-- The cluster of the operation was not deleted before the watcher takes it up. -/
def StillNamed (s : State) : Event → Prop
  | .watch id w => ∀ op cluster, watched id s.db = some op → w.fails .getCluster = false →
      getCluster op.clusterID s.db = some cluster → cluster.deletedAt = none
  | _ => True

def containerPath (name : String) : String := ansibleLogDir ++ ("/" ++ (name ++ ".json"))

/-- The cluster has the name the envs were made from, or a longer one after its deletion. -/
def Carries (id : ℤ) (envs : List String) (d : Db) : Prop :=
  id ∈ d.clusters.map Cluster.clusterID ∧
    ∃ name, envValue logFileVar envs = some (containerPath name) ∧
      ∀ i ∈ d.clusters.map identity, i.1 = id →
        (i.2.2 = none → i.2.1 = name) ∧ (i.2.2 ≠ none → name.length < i.2.1.length)

structure Traced (s : State) : Prop where
  requests : ∀ r ∈ s.requests, Carries r.clusterID r.envs s.db
  containers : ∀ k ∈ s.containers, Carries k.clusterID k.envs s.db
  started : ∀ r ∈ s.requests, ∀ code, r.stage = .started code →
    ∃ k ∈ s.containers, k.code = code ∧ k.clusterID = r.clusterID
  operations : ∀ a ∈ s.db.operations.map assignment,
    ∃ k ∈ s.containers, k.code = a.2.2 ∧ k.clusterID = a.2.1
  codes : (s.containers.map Container.code).Nodup

variable {S : Setup} {s : State} {d d' : Db} {id : ℤ} {envs : List String}

/-! ## The variable -/

theorem envValue_allEnvs (b : Body) (secret : List String × ParamLocation) :
    envValue logFileVar (allEnvs b secret) = some (containerPath b.name) := by
  have hsplit : splitAssignment ("ANSIBLE_JSON_LOG_FILE=" ++ containerPath b.name).toList =
      some (logFileVar.toList, (containerPath b.name).toList) := by
    rw [String.toList_append, show "ANSIBLE_JSON_LOG_FILE=".toList = logFileVar.toList ++ ['='] by
      decide, List.append_assoc, List.singleton_append]
    exact splitAssignment_append (by decide)
  have hlast : allEnvs b secret = (b.envs ++ if secret.2 = .env then secret.1 else []) ++
      ["ANSIBLE_JSON_LOG_FILE=" ++ containerPath b.name] := by
    simp [allEnvs, getAnsibleLogEnv, containerPath]
  rw [hlast, envValue, List.reverse_append, List.reverse_singleton, List.singleton_append,
    List.findSome?_cons, hsplit]
  simp

theorem sameFile_iff (name : String) (cluster : Cluster) :
    SameFile S ⟨logPath S cluster, some (containerPath name)⟩ ↔ cluster.clusterName = name := by
  have happend : ∀ x y z : String, x ++ y = x ++ z → y = z := by
    intro x y z h
    have hl := congrArg String.toList h
    rw [String.toList_append, String.toList_append] at hl
    exact String.toList_inj.mp (List.append_cancel_left hl)
  constructor
  · rintro ⟨below, hpassed, hpath⟩
    have hbelow := happend _ _ _ (Option.some.inj hpassed)
    simp only [logPath, String.append_assoc] at hpath
    have hname := happend _ _ _ (happend _ _ _ (hpath.trans (by rw [← hbelow])))
    have hl := congrArg String.toList hname
    rw [String.toList_append, String.toList_append] at hl
    exact String.toList_inj.mp (List.append_cancel_right hl)
  · rintro rfl
    refine ⟨"/" ++ (cluster.clusterName ++ ".json"), rfl, ?_⟩
    simp only [logPath, String.append_assoc]

/-! ## What each event keeps -/

theorem beginPost_eq_some {C : Circumstances} {b : Body} {p : Prepared}
    (h : beginPost C b d = some (p, id, d')) :
    ∃ secret, p = prepare C b secret (getProxySetting C d) ∧ id = d.nextClusterID ∧
      d'.toTables = { d.toTables with
        clusters := d.clusters ++ [(createReq C b p).row d.nextClusterID C.now]
        nextClusterID := d.nextClusterID + 1 } := by
  rw [beginPost] at h
  split at h
  · cases h
  · cases hs : secretOf C b d with
    | error e => simp [hs] at h
    | ok secret =>
      simp only [hs] at h
      split at h
      · cases h
      · obtain ⟨⟨c, e⟩, he, hp⟩ := Option.map_eq_some_iff.mp h
        obtain ⟨-, rfl, ht⟩ := createCluster_eq_some.mp he
        simp only [Prod.mk.injEq] at hp
        obtain ⟨rfl, rfl, rfl⟩ := hp
        exact ⟨secret, rfl, rfl, ht⟩

theorem carries_keeps (hk : KeepsClusters d d') (h : Carries id envs d) : Carries id envs d' := by
  obtain ⟨hid, name, henv, hname⟩ := h
  exact ⟨hk.ids ▸ hid, name, henv, hk ▸ hname⟩

theorem carries_created {c : Cluster} (hc : c.clusterID = d.nextClusterID)
    (hd : d'.clusters = d.clusters ++ [c]) (h : Carries id envs d) : Carries id envs d' := by
  obtain ⟨hid, name, henv, hname⟩ := h
  have hlt : id < d.nextClusterID := by
    obtain ⟨c', hc', rfl⟩ := List.mem_map.mp hid
    exact d.ok.clusters_issued c' hc'
  refine ⟨?_, name, henv, ?_⟩
  · rw [hd, List.map_append]
    exact List.mem_append_left _ hid
  · intro i hi he
    rw [hd, List.map_append] at hi
    rcases List.mem_append.mp hi with hi | hi
    · exact hname i hi he
    · -- the new row has a number of its own
      rw [List.mem_singleton.mp hi] at he
      exact absurd (hc.symm.trans he) (Int.ne_of_gt hlt)

theorem softDeleted_clusterID (pg : Postgres) (now : ℕ) (c : Cluster) :
    (softDeleted pg now c).clusterID = c.clusterID := rfl

/-- A deletion makes the name longer. -/
theorem carries_deleted {pg : Postgres} {i : ℤ} {now : ℕ}
    (hd : d'.clusters = updateWhere (fun c => decide (c.clusterID = i)) (softDeleted pg now)
      d.clusters) (h : Carries id envs d) : Carries id envs d' := by
  obtain ⟨hid, name, henv, hname⟩ := h
  have hids : d'.clusters.map Cluster.clusterID = d.clusters.map Cluster.clusterID := by
    rw [hd, map_updateWhere (softDeleted_clusterID pg now)]
  refine ⟨hids ▸ hid, name, henv, ?_⟩
  intro t ht he
  obtain ⟨c', hc', rfl⟩ := List.mem_map.mp ht
  rw [hd] at hc'
  obtain ⟨c, hc, rfl⟩ := mem_updateWhere.mp hc'
  by_cases hi : c.clusterID = i
  · simp only [hi, decide_true, if_true] at he ⊢
    obtain ⟨hkept, hlong⟩ := hname (identity c) (List.mem_map_of_mem hc) he
    refine ⟨fun hn => absurd hn (by simp [identity, softDeleted]), fun _ => ?_⟩
    have hsuffix : (identity c).2.1.length < (identity (softDeleted pg now c)).2.1.length := by
      simp only [identity, softDeleted, String.length_append]
      have : "_deleted_".length = 9 := by decide
      omega
    by_cases hdel : (identity c).2.2 = none
    · rw [← hkept hdel]
      exact hsuffix
    · exact Nat.lt_trans (hlong hdel) hsuffix
  · simp only [hi, decide_false, Bool.false_eq_true, if_false] at he ⊢
    exact hname (identity c) (List.mem_map_of_mem hc) he

/-- Nothing but the tables changed, and every identity is carried over. -/
theorem traced_tables {d' : Db} (h : Traced s)
    (hc : ∀ id envs, Carries id envs s.db → Carries id envs d')
    (ho : d'.operations.map assignment = s.db.operations.map assignment) :
    Traced { s with db := d' } where
  requests r hr := hc _ _ (h.requests r hr)
  containers k hk := hc _ _ (h.containers k hk)
  started := h.started
  operations := ho ▸ h.operations
  codes := h.codes

theorem traced_create (C : Circumstances) (b : Body) (h : Traced s) :
    Traced (act S s (.create C b)) := by
  simp only [act]
  split
  · exact h
  · next p id d hp =>
    obtain ⟨secret, rfl, rfl, ht⟩ := beginPost_eq_some hp
    have hcl := congrArg Tables.clusters ht
    have hops : d.operations = s.db.operations := by rw [ht]
    have hdb := traced_tables h (fun _ _ => carries_created rfl hcl) (by rw [hops])
    split
    · exact hdb
    · refine { hdb with requests := ?_, started := ?_ }
      · intro r hr
        rcases List.mem_append.mp hr with hr | hr
        · exact hdb.requests r hr
        · -- the new row is the only one with its number and has the name of the body
          rw [List.mem_singleton.mp hr]
          refine ⟨?_, b.name, prepare_envs C b secret _ ▸ envValue_allEnvs b secret, ?_⟩
          · rw [hcl, List.map_append]
            exact List.mem_append_right _ (List.mem_singleton.mpr rfl)
          · intro i hi he
            rw [hcl, List.map_append] at hi
            rcases List.mem_append.mp hi with hi | hi
            · obtain ⟨c, hc, rfl⟩ := List.mem_map.mp hi
              exact absurd he (Int.ne_of_lt (s.db.ok.clusters_issued c hc))
            · rw [List.mem_singleton.mp hi]
              exact ⟨fun _ => rfl, fun hne => absurd rfl hne⟩
      · intro r hr code hs
        rcases List.mem_append.mp hr with hr | hr
        · exact h.started r hr code hs
        · rw [List.mem_singleton.mp hr] at hs
          cases hs

/-- A request keeps its cluster and envs through its stages. -/
theorem mem_setStage {i : ℕ} {r r' : Request} {stage : Stage} (hr : s.requests[i]? = some r)
    (hr' : r' ∈ setStage s i r stage) :
    r' ∈ s.requests ∨ r' = { r with stage := stage } ∧ r ∈ s.requests := by
  rcases List.mem_or_eq_of_mem_set hr' with hm | he
  · exact Or.inl hm
  · exact Or.inr ⟨he, List.mem_of_getElem? hr⟩

theorem traced_start (i : ℕ) (code : String) (h : Traced s) :
    Traced (act S s (.start i code)) := by
  simp only [act]
  split
  · next id project envs hr =>
    split
    · exact h
    · next hfresh =>
      have hm := List.mem_of_getElem? hr
      have hcarries : Carries id envs s.db := h.requests _ hm
      constructor
      · intro r' hr'
        rcases mem_setStage hr hr' with hr' | ⟨rfl, -⟩
        · exact h.requests r' hr'
        · exact hcarries
      · intro k hk
        rcases List.mem_append.mp hk with hk | hk
        · exact h.containers k hk
        · rw [List.mem_singleton.mp hk]
          exact hcarries
      · intro r' hr' code' hs
        rcases mem_setStage hr hr' with hr' | ⟨rfl, -⟩
        · obtain ⟨k, hk, he⟩ := h.started r' hr' code' hs
          exact ⟨k, List.mem_append_left _ hk, he⟩
        · cases hs
          exact ⟨_, List.mem_append_right _ (List.mem_singleton.mpr rfl), rfl, rfl⟩
      · intro a ha
        obtain ⟨k, hk, he⟩ := h.operations a ha
        exact ⟨k, List.mem_append_left _ hk, he⟩
      · simp only [List.map_append, List.map_cons, List.map_nil]
        exact List.Nodup.append h.codes (List.nodup_singleton _)
          (List.disjoint_singleton.mpr hfresh)
  · exact h

theorem traced_record (i : ℕ) (cid : String) (now : ℕ) (h : Traced s) :
    Traced (act S s (.record i cid now)) := by
  simp only [act]
  split
  · next id project envs code hr =>
    split
    · exact h
    · next o d ho =>
      obtain ⟨-, rfl, ht⟩ := createOperation_eq_some.mp ho
      have hcl : KeepsClusters s.db d := by rw [KeepsClusters, ht]
      have hm := List.mem_of_getElem? hr
      have hcarries : Carries id envs s.db := h.requests _ hm
      constructor
      · intro r' hr'
        rcases mem_setStage hr hr' with hr' | ⟨rfl, -⟩
        · exact carries_keeps hcl (h.requests r' hr')
        · exact carries_keeps hcl hcarries
      · intro k hk
        exact carries_keeps hcl (h.containers k hk)
      · intro r' hr' code' hs
        rcases mem_setStage hr hr' with hr' | ⟨rfl, -⟩
        · exact h.started r' hr' code' hs
        · cases hs
      · intro a ha
        simp only [ht, List.map_append] at ha
        rcases List.mem_append.mp ha with ha | ha
        · exact h.operations a ha
        · rw [List.mem_singleton.mp ha]
          exact h.started _ hm code rfl
      · exact h.codes
  · exact h

theorem traced_act (S : Setup) (s : State) (e : Event) (h : Traced s) : Traced (act S s e) := by
  cases e with
  | create C b => exact traced_create C b h
  | start i code => exact traced_start i code h
  | record i cid now => exact traced_record i cid now h
  | delete id now =>
    simp only [act]
    split
    · exact h
    · next d hd =>
      have ht := commit_eq_some.mp hd
      exact traced_tables h (fun _ _ => carries_deleted (congrArg Tables.clusters ht)) (by rw [ht])
  | watch id w =>
    simp only [act]
    split
    · exact h
    · next op _ =>
      exact traced_tables h (fun _ _ => carries_keeps (keepsClusters_collect S w op s.db))
        (keepsOperations_collect S w op s.db)

/-! ## The opened files -/

theorem watched_eq_some {op : Operation} (h : watched id d = some op) :
    op ∈ d.operations ∧ op.operationStatus = operationStatusInProgress := by
  obtain ⟨ho, hs⟩ := Option.filter_eq_some_iff.mp h
  exact ⟨List.mem_of_find?_eq_some ho, of_decide_eq_true hs⟩

theorem find_container {k : Container} (h : Traced s) (hk : k ∈ s.containers) :
    (s.containers.find? fun k' => decide (k'.code = k.code)) = some k := by
  obtain ⟨k', hk'⟩ : ∃ k', (s.containers.find? fun k' => decide (k'.code = k.code)) = some k' := by
    rw [← Option.isSome_iff_exists, List.find?_isSome]
    exact ⟨k, hk, by simp⟩
  have hcode : k'.code = k.code := by simpa using List.find?_some hk'
  rw [hk', eq_of_key_eq h.codes (List.mem_of_find?_eq_some hk') hk hcode]

theorem stillNamed_watch {w : Conditions} {op : Operation} {cluster : Cluster}
    (hw : watched id s.db = some op) (hf : w.fails .getCluster = false)
    (hc : getCluster op.clusterID s.db = some cluster) :
    StillNamed s (.watch id w) ↔ cluster.deletedAt = none := by
  constructor
  · intro h
    exact h op cluster hw hf hc
  · intro hdel op' cluster' hw' _ hc'
    obtain rfl := Option.some.inj (hw.symm.trans hw')
    obtain rfl := Option.some.inj (hc.symm.trans hc')
    exact hdel

theorem opened_same_file_iff (h : Traced s) (e : Event) :
    (∀ o ∈ opens S s e, SameFile S o) ↔ StillNamed s e := by
  cases e with
  | watch id w =>
    cases hw : watched id s.db with
    | none => simp [opens, StillNamed, hw]
    | some op =>
      cases hf : w.fails .getCluster with
      | true => simp [opens, StillNamed, hw, hf]
      | false =>
        cases hc : getCluster op.clusterID s.db with
        | none =>
          refine iff_of_true (by simp [opens, hw, hf, hc]) ?_
          intro op' cluster hw' _ hc'
          obtain rfl := Option.some.inj (hw.symm.trans hw')
          rw [hc] at hc'
          cases hc'
        | some cluster =>
          -- the container was given the name that the row had when it was created
          obtain ⟨k, hk, hcode, hid⟩ := h.operations (assignment op)
            (List.mem_map_of_mem (watched_eq_some hw).1)
          obtain ⟨-, name, henv, hname⟩ := h.containers k hk
          obtain ⟨hcid, -⟩ := cluster_of_getCluster hc
          have hfind := find_container h hk
          simp only [hcode, assignment] at hfind
          have hopens : opens S s (.watch id w) =
              [⟨logPath S cluster, some (containerPath name)⟩] := by
            simp [opens, hw, hf, hc, hfind, henv]
          obtain ⟨hkept, hlong⟩ := hname (identity cluster)
            (List.mem_map_of_mem (List.mem_of_find?_eq_some hc)) (hcid.trans hid.symm)
          rw [hopens, List.forall_mem_singleton, sameFile_iff, stillNamed_watch hw hf hc]
          constructor
          · intro hn
            by_contra hdel
            have hlt := hlong hdel
            simp only [identity, hn] at hlt
            exact Nat.lt_irrefl _ hlt
          · exact hkept
  | _ => simp [opens, StillNamed]

/-- From tables without operations, the watcher opens the file of the container in every run
exactly when it takes up no operation of a deleted cluster. -/
theorem log_file_identity_iff (hd : d.operations = []) (es : List Event) :
    (∀ o ∈ trace (act S) (opens S) ⟨d, [], []⟩ es, SameFile S o) ↔
      Along (act S) StillNamed ⟨d, [], []⟩ es := by
  apply trace_iff_along (fun s e h => traced_act S s e h)
    (fun s e h => opened_same_file_iff h e)
  exact ⟨by simp, by simp, by simp, by simp [hd], List.nodup_nil⟩

def deployBody : Body where
  projectID := 1
  environmentID := 1
  name := "postgres-cluster-01"
  description := ""
  authInfo := none
  existingCluster := false
  extraVars := none
  envs := []

/-- A deployment whose cluster is deleted before the watcher takes up its operation. -/
def deletedMeanwhile : List Event :=
  [.create smooth deployBody, .start 0 "0123456789ab", .record 0 "cid" 1, .delete 1 2,
    .watch 1 ⟨fun _ => false, fun _ => none⟩]

theorem log_file_identity_migrated :
    migrated.operations = [] ∧
      ((∀ o ∈ trace (act plainSetup) (opens plainSetup) ⟨migrated, [], []⟩ (deletedMeanwhile.take 3),
        SameFile plainSetup o) ↔
      Along (act plainSetup) StillNamed ⟨migrated, [], []⟩ (deletedMeanwhile.take 3)) :=
  ⟨rfl, log_file_identity_iff rfl (deletedMeanwhile.take 3)⟩

/-- The renamed cluster leads the watcher to a file that no container writes. -/
theorem renamed_log_file :
    ¬ ∀ o ∈ trace (act plainSetup) (opens plainSetup) ⟨migrated, [], []⟩ deletedMeanwhile,
      SameFile plainSetup o := by
  intro h
  have hsame : ∀ o ∈ trace (act plainSetup) (opens plainSetup) ⟨migrated, [], []⟩ deletedMeanwhile,
      o.passed = some o.path := by
    intro o ho
    obtain ⟨below, hpassed, hpath⟩ := h o ho
    rw [hpassed, hpath]
    rfl
  exact absurd hsame (by decide +kernel)

end ConsoleLogPaths
