import Autobase.Base64Text
import Mathlib.Data.Multiset.AddSub
import Autobase.ConsoleStoredRows
import Autobase.ConsoleSecretFlow

/-! # POST /clusters/{id}/remove

The removal starts the automation again, with the secret of the row, its variables and its
inventory. The secret goes to the envs here whatever its type, and a deleted cluster has lost
its secret. -/
namespace ConsoleRemoveCluster

open ConsoleSchema ConsoleStatements ConsolePostCluster ConsolePostClusterFailure
open ConsoleSecretFlow ConsoleStoredRows TransitionRuns JsonText

structure ManageClusterConfig where
  envs : List String
  extraVars : VarMap

inductive RemoveCall where
  | getCluster
  | deleteOperations
  | deleteServers
  | deleteRow
  deriving DecidableEq

/-- The calls of a removal that may fail, besides those of a creation. -/
structure Removal where
  fails : RemoveCall → Bool
  errorText : RemoveCall → String

/-- A write to a map that is null aborts the request. -/
inductive RemoveResponse where
  | noContent
  | badRequest (message : String)
  | aborted
  deriving DecidableEq

structure RemoveAnswer where
  db : Db
  response : RemoveResponse
  passed : Option ManageClusterConfig

/-- The stored variables; the inner option is a map that is null. -/
def rowVars (C : Circumstances) (c : Cluster) : Except String (Option VarMap) :=
  match c.extraVars with
  | none => .ok (some [])
  | some .null => .ok none
  | some v =>
    match unmarshalMap [] v with
    | none => .error C.unmarshalError
    | some m => .ok (some m)

def rowSecret (C : Circumstances) (c : Cluster) (d : Db) :
    Except String (List String × ParamLocation) :=
  match c.secretID with
  | none => .ok ([], .unknown)
  | some id => getSecretEnvs C id d

def encodedInventory (pg : Postgres) (v : Json) : String :=
  String.ofList (Base64Text.encode (pg.jsonbOut v).toUTF8.toList)

def inventoryEnvs (pg : Postgres) (c : Cluster) : List String :=
  match c.inventory with
  | none => []
  | some v => ["ANSIBLE_INVENTORY_JSON=" ++ encodedInventory pg v]

def removeEnvs (pg : Postgres) (c : Cluster) (secret : List String) : List String :=
  secret ++ ("patroni_cluster_name=" ++ c.clusterName) :: inventoryEnvs pg c

def removeVars (m : VarMap) (secret : List String × ParamLocation) : VarMap :=
  let m := setVar "state" (.str "absent") m
  if secret.2 = .extraVars then secret.1.foldl setAssignment m else m

/-- The statements of DeleteCluster, up to the first one that fails. -/
def deleteCluster (R : Removal) (id : ℤ) (d : Db) : Db × Option RemoveCall :=
  match if R.fails .deleteOperations then none else deleteClusterOperations id d with
  | none => (d, some .deleteOperations)
  | some d =>
    match if R.fails .deleteServers then none else deleteClusterServers id d with
    | none => (d, some .deleteServers)
    | some d =>
      match if R.fails .deleteRow then none else deleteClusterRow id d with
      | none => (d, some .deleteRow)
      | some d => (d, none)

def startRemoval (C : Circumstances) (R : Removal) (id : ℤ) (config : ManageClusterConfig) (d : Db) :
    RemoveAnswer :=
  match if C.fails .manageCluster then none else C.docker with
  | none => ⟨d, .badRequest (C.errorText .manageCluster), some config⟩
  | some _ =>
    match deleteCluster R id d with
    | (d', some call) => ⟨d', .badRequest (R.errorText call), some config⟩
    | (d', none) => ⟨d', .noContent, some config⟩

def handleRemove (C : Circumstances) (R : Removal) (id : ℤ) (d : Db) : RemoveAnswer :=
  match if R.fails .getCluster then none else getCluster id d with
  | none => ⟨d, .badRequest (R.errorText .getCluster), none⟩
  | some c =>
    match rowVars C c with
    | .error e => ⟨d, .badRequest e, none⟩
    | .ok none => ⟨d, .aborted, none⟩
    | .ok (some m) =>
      match rowSecret C c d with
      | .error e => ⟨d, .badRequest e, none⟩
      | .ok secret => startRemoval C R id ⟨removeEnvs C.pg c secret.1, removeVars m secret⟩ d

/-- What the creation passed to the automation, if it came that far. -/
def deployConfig (C : Circumstances) (b : Body) (d : Db) : Option ManageClusterConfig :=
  match secretOf C b d with
  | .error _ => none
  | .ok secret =>
    let p := prepare C b secret (getProxySetting C d)
    (handle C b d).container.map fun _ => ⟨p.envs, p.extraVars⟩

/-! ## What is derived from the secret -/

/-- The envs of a creation but for those of the body and of the log file. -/
def createShare (b : Body) (cfg : ManageClusterConfig) : Multiset String :=
  (cfg.envs : Multiset String) - (b.envs ++ getAnsibleLogEnv b.name : List String)

/-- The envs of a removal but for the name and the inventory. -/
def removeShare (pg : Postgres) (c : Cluster) (cfg : ManageClusterConfig) : Multiset String :=
  (cfg.envs : Multiset String) - (removeEnvs pg c [] : List String)

/-- The variables of a type that go to the extra vars, with their values. -/
def secretVars (type : String) (m : VarMap) : List (String × Option Json) :=
  match secretKinds.lookup type with
  | none => []
  | some k => if k.location = .extraVars then k.vars.map fun v => (v.1, m.lookup v.1) else []

structure SameCredentials (type : String) (b : Body) (pg : Postgres) (c : Cluster)
    (created removed : ManageClusterConfig) : Prop where
  envs : createShare b created = removeShare pg c removed
  vars : secretVars type created.extraVars = secretVars type removed.extraVars

/-! ## Maps of variables -/

theorem nodup_setVar {m : VarMap} (h : (m.map Prod.fst).Nodup) (k : String) (v : Json) :
    ((setVar k v m).map Prod.fst).Nodup := by
  rw [setVar_eq_assign]
  exact ObjectLiterals.nodup_assign h k v

theorem nodup_setAssignments (kvs : List String) {m : VarMap} (h : (m.map Prod.fst).Nodup) :
    ((kvs.foldl setAssignment m).map Prod.fst).Nodup := by
  induction kvs generalizing m with
  | nil => exact h
  | cons kv kvs ih =>
    refine ih ?_
    rw [setAssignment]
    split
    · exact h
    · exact nodup_setVar h _ _

theorem nodup_bodyVars (b : Body) : ((bodyVars b).map Prod.fst).Nodup := by
  have hfold : ∀ (kvs : List (String × Json)) (m : VarMap), (m.map Prod.fst).Nodup →
      ((kvs.foldl (fun m kv => setVar kv.1 kv.2 m) m).map Prod.fst).Nodup := by
    intro kvs
    induction kvs with
    | nil => exact fun m hm => hm
    | cons kv kvs ih => exact fun m hm => ih _ (nodup_setVar hm _ _)
  rw [bodyVars]
  split
  · exact hfold _ [] List.nodup_nil
  · exact List.nodup_nil

theorem nodup_allExtraVars (b : Body) (r : List String × ParamLocation) (proxy : Option Json) :
    ((allExtraVars b r proxy).map Prod.fst).Nodup := by
  have hsecret : ((if r.2 = .extraVars then r.1.foldl setAssignment (bodyVars b)
      else bodyVars b).map Prod.fst).Nodup := by
    split
    · exact nodup_setAssignments _ (nodup_bodyVars b)
    · exact nodup_bodyVars b
  cases proxy with
  | none => exact hsecret
  | some v => exact nodup_setVar hsecret _ _

/-- A map that is written and read again holds the same values. -/
theorem lookup_reread {m : VarMap} (h : (m.map Prod.fst).Nodup) (acc : VarMap) (key : String) :
    (m.foldl (fun m kv => setVar kv.1 kv.2 m) acc).lookup key =
      (m.lookup key).or (acc.lookup key) := by
  induction m generalizing acc with
  | nil => rfl
  | cons kv m ih =>
    obtain ⟨k, v⟩ := kv
    obtain ⟨hnew, hrest⟩ := List.nodup_cons.mp h
    rw [List.foldl_cons, ih hrest, lookup_setVar]
    by_cases hk : key = k
    · subst hk
      have hnone : m.lookup key = none := by
        rw [List.lookup_eq_none_iff]
        intro p hp
        simp only [bne_iff_ne, ne_eq]
        exact fun he => hnew (List.mem_map.mpr ⟨p, hp, he.symm⟩)
      simp [hnone]
    · have hb : (key == k) = false := by simpa using hk
      simp [List.lookup_cons, hb, hk]

/-! ## The two calls of the automation -/

variable {C C' : Circumstances} {R : Removal} {b : Body} {c : Cluster} {d d' : Db} {id : ℤ}
  {cfg cfg' : ManageClusterConfig} {r : List String × ParamLocation}

theorem deployConfig_eq (h : deployConfig C b d = some cfg) :
    ∃ code r, (handle C b d).container = some (code, cfg.envs) ∧ secretOf C b d = .ok r ∧
      cfg.envs = allEnvs b r ∧ cfg.extraVars = allExtraVars b r (getProxySetting C d) := by
  rw [deployConfig] at h
  cases hr : secretOf C b d with
  | error e => simp [hr] at h
  | ok r =>
    simp only [hr, Option.map_eq_some_iff] at h
    obtain ⟨⟨code, envs⟩, hk, rfl⟩ := h
    obtain ⟨p, d', hw, rfl⟩ := container_written hk
    obtain ⟨r', hr', rfl⟩ := hw.secret
    obtain rfl := Except.ok.inj (hr.symm.trans hr')
    exact ⟨code, r, hk, rfl, prepare_envs C b r _, prepare_extraVars C b r _⟩

theorem passed_eq (h : (handleRemove C R id d).passed = some cfg) :
    ∃ c m r, getCluster id d = some c ∧ rowVars C c = .ok (some m) ∧ rowSecret C c d = .ok r ∧
      cfg = ⟨removeEnvs C.pg c r.1, removeVars m r⟩ := by
  rw [handleRemove] at h
  split at h
  · cases h
  · next c hc =>
    have hc' : getCluster id d = some c := by
      split at hc
      · cases hc
      · exact hc
    cases hm : rowVars C c with
    | error e => simp [hm] at h
    | ok o =>
      cases o with
      | none => simp [hm] at h
      | some m =>
        cases hr : rowSecret C c d with
        | error e => simp [hm, hr] at h
        | ok r =>
          simp only [hm, hr] at h
          refine ⟨c, m, r, hc', hm, hr, ?_⟩
          rw [startRemoval] at h
          split at h
          · exact (Option.some.inj h).symm
          · split at h
            · exact (Option.some.inj h).symm
            · exact (Option.some.inj h).symm

theorem createShare_eq (henvs : cfg.envs = allEnvs b r) :
    createShare b cfg = ((if r.2 = .env then r.1 else [] : List String) : Multiset String) := by
  rw [createShare, henvs, allEnvs, ← Multiset.coe_add, ← Multiset.coe_add, ← Multiset.coe_add,
    Multiset.add_comm _ (getAnsibleLogEnv b.name : Multiset String), ← Multiset.add_assoc,
    Multiset.add_comm _ (_ : Multiset String), Multiset.add_sub_cancel_right]

theorem removeShare_eq (secret : List String) (vars : VarMap) (pg : Postgres) (c : Cluster) :
    removeShare pg c ⟨removeEnvs pg c secret, vars⟩ = (secret : Multiset String) := by
  rw [removeShare, removeEnvs, removeEnvs, List.nil_append, ← Multiset.coe_add,
    Multiset.add_sub_cancel_right]

/-! ## What the creation leaves behind -/

theorem secrets_repairStatus (C : Circumstances) (id : ℤ) (d : Db) :
    (repairStatus C id d).secrets = d.secrets := by
  refine attempt_cluster_keeps (I := fun t => t.secrets = d.secrets) rfl fun c d' hu => ?_
  obtain ⟨info, -, -, ht, -⟩ := updateCluster_eq_some.mp hu
  rw [ht]

theorem secrets_startDeployment (C : Circumstances) (b : Body) (p : Prepared) (id : ℤ) (d : Db) :
    (startDeployment C b p id d).db.secrets = d.secrets := by
  rw [startDeployment]
  split
  · exact secrets_repairStatus C id d
  · split
    · exact secrets_repairStatus C id d
    · next o d' ho =>
      split at ho
      · cases ho
      · obtain ⟨-, -, ht⟩ := createOperation_eq_some.mp ho
        simp only [ht]

/-- A creation that starts the automation leaves the row with its secret and its variables. -/
theorem created_row {code : String} {envs : List String} (hr : secretOf C b d = .ok r)
    (h : (handle C b d).container = some (code, envs))
    (hid : (handle C b d).created = some id) :
    ∃ c ∈ (handle C b d).db.clusters, c.clusterID = id ∧ c.secretID = b.authInfo ∧
      c.deletedAt = none ∧
      c.extraVars = some (.obj (allExtraVars b r (getProxySetting C d))) ∧
      (handle C b d).db.secrets = d.secrets := by
  obtain ⟨p, d', hw, rfl⟩ := container_written h
  obtain ⟨r', hr', rfl⟩ := hw.secret
  obtain rfl := Except.ok.inj (hr.symm.trans hr')
  have hrow := written_column (g := fun c => (c.clusterID, c.secretID, c.deletedAt, c.extraVars))
    (fun _ _ => rfl) (fun _ _ _ => rfl) hw
  obtain ⟨c, hc, hcolumns⟩ := Option.map_eq_some_iff.mp hrow
  simp only [Prod.mk.injEq, createReq, CreateClusterReq.row, prepare_extraVars] at hcolumns
  obtain ⟨hcid, hsecret, hdeleted, hvars⟩ := hcolumns
  have hget : getCluster id (handle C b d).db = some c := by
    rw [writtenRow, hid] at hc
    exact hc
  have hcidid : c.clusterID = id := by simpa using List.find?_some hget
  refine ⟨c, List.mem_of_find?_eq_some hget, hcidid, hsecret, hdeleted, hvars, ?_⟩
  rw [hw.answer] at h ⊢
  cases hb : b.existingCluster with
  | true =>
    rw [hb, if_pos rfl, importCluster] at h
    split at h <;> cases h
  | false =>
    rw [if_neg (by decide), secrets_startDeployment, hw.tables]

theorem rowVars_reread {m vars : VarMap} (h : (vars.map Prod.fst).Nodup)
    (hc : c.extraVars = some (.obj vars)) (hm : rowVars C c = .ok (some m)) (key : String) :
    m.lookup key = vars.lookup key := by
  rw [rowVars, hc] at hm
  simp only [unmarshalMap] at hm
  split at hm
  · cases hm
  · next m' hm' =>
    obtain rfl := Option.some.inj (Except.ok.inj hm)
    split at hm'
    · obtain rfl := Option.some.inj hm'
      rw [lookup_reread h]
      simp
    · cases hm'

/-! ## Creation and removal -/

theorem getSecretEnvs_ok {id : ℤ} {q : Secret} (h : getSecretEnvs C id d = .ok r)
    (hq : getSecret id d = some q) : secretEnvs q.secretType q.secretValue = some r := by
  rw [getSecretEnvs] at h
  split at h
  · cases h
  rw [hq] at h
  simp only at h
  split at h
  · cases h
  split at h
  · cases h
  · next r' hr => rw [hr, Except.ok.inj h]

theorem kind_envs : ∀ k ∈ secretKinds, k.2.vars ≠ [] := by
  decide

/-- The share of both calls, for a secret of a supported type. -/
theorem shares_iff {type : String} {k : SecretKind} (hk : secretKinds.lookup type = some k)
    (values : List String) (deleted : Prop) [Decidable deleted] :
    (((if k.location = .env then k.envs values else [] : List String) : Multiset String) =
        ((if deleted then [] else k.envs values : List String) : Multiset String)) ↔
      (type = passwordType ↔ deleted) := by
  have hmem := mem_secretKinds hk
  obtain ⟨hknown, hpassword⟩ := password_kind _ hmem
  have hne : (k.envs values : Multiset String) ≠ (([] : List String) : Multiset String) := by
    intro he
    have hlen := congrArg Multiset.card he
    rw [Multiset.coe_card, Multiset.coe_card, List.length_nil] at hlen
    exact kind_envs _ hmem (List.map_eq_nil_iff.mp (List.length_eq_zero_iff.mp hlen))
  by_cases ht : type = passwordType
  · have hloc : k.location = .extraVars := hpassword.mpr ht
    by_cases hd : deleted
    · simp [hloc, hd, ht]
    · simpa [hloc, hd, ht] using hne.symm
  · have hloc : k.location = .env := by
      cases hl : k.location with
      | unknown => exact absurd hl hknown
      | env => rfl
      | extraVars => exact absurd (hpassword.mp hl) ht
    by_cases hd : deleted
    · simpa [hloc, hd, ht] using hne
    · simp [hloc, hd, ht]

/-- The variables that a secret gave the creation are in the stored map already. -/
theorem secretVars_removed {type : String} {m vars : VarMap}
    (hm : ∀ key, m.lookup key = vars.lookup key) :
    secretVars type (removeVars m ([], .unknown)) = secretVars type vars := by
  unfold secretVars
  cases hk : secretKinds.lookup type with
  | none => rfl
  | some k =>
    simp only
    split
    · apply List.map_congr_left
      intro v hv
      have hstate : v.1 ≠ "state" := by
        have hnames : ∀ k ∈ secretKinds, ∀ v ∈ k.2.vars, v.1 ≠ "state" := by decide
        exact hnames _ (mem_secretKinds hk) v hv
      rw [removeVars, if_neg (by decide), lookup_setVar, if_neg hstate, hm]
    · rfl

theorem secretVars_envs {type : String} (ht : type ≠ passwordType) (m m' : VarMap) :
    secretVars type m = secretVars type m' := by
  unfold secretVars
  cases hk : secretKinds.lookup type with
  | none => rfl
  | some k =>
    have hloc : k.location ≠ .extraVars :=
      fun hl => ht ((password_kind _ (mem_secretKinds hk)).2.mp hl)
    simp only [hloc, if_false]

variable {sid n : ℤ} {q : Secret} {pg : Postgres} {ws : List Write}

/-- What is left of the row, and the secret a removal finds through it. -/
theorem removed_row (hb : b.authInfo = some sid) (hq : getSecret sid d = some q)
    (hn : q.secretID < n) (hr : secretOf C b d = .ok r) {code : String} {envs : List String}
    (hk : (handle C b d).container = some (code, envs))
    (hid : (handle C b d).created = some id)
    (hrow : getCluster id (run (act pg) ⟨(handle C b d).db, n⟩ ws).db = some c) :
    c.extraVars = some (.obj (allExtraVars b r (getProxySetting C d))) ∧
      (c.secretID = some sid ∧ c.deletedAt = none ∧
          getSecret sid (run (act pg) ⟨(handle C b d).db, n⟩ ws).db = some q ∨
        c.secretID = none ∧ c.deletedAt.isSome) := by
  obtain ⟨c₀, hc₀, hid₀, hsecret, hdeleted, hvars, hsecrets⟩ := created_row hr hk hid
  have hsid : q.secretID = sid := by simpa using List.find?_some hq
  have hqmem : q ∈ (handle C b d).db.secrets := hsecrets ▸ List.mem_of_find?_eq_some hq
  have hcluster := keepsCluster_run pg
    (keepsCluster_of_mem (s := ⟨(handle C b d).db, n⟩) hc₀) ws
  have hsecretRow := keepsSecret_run pg
    (keepsSecret_of_mem (s := ⟨(handle C b d).db, n⟩) hqmem hn) ws
  have hcmem := List.mem_of_find?_eq_some hrow
  have hcid : c.clusterID = id := by simpa using List.find?_some hrow
  have hcarried := hcluster.rows c hcmem (hcid.trans hid₀.symm)
  refine ⟨hcarried.extraVars.trans hvars, ?_⟩
  rcases hcarried.secret with ⟨hs, hdel⟩ | hdel
  · have hs' : c.secretID = some sid := hs.trans (hsecret.trans hb)
    refine Or.inl ⟨hs', hdel.trans hdeleted, ?_⟩
    rw [← hsid] at hs' ⊢
    exact getSecret_of_referred hsecretRow hcmem hs'
  · exact Or.inr hdel

/-- A deleted cluster has lost its secret; another one reads what the creation read. -/
theorem rowSecret_after {r r' : List String × ParamLocation}
    (hread : secretEnvs q.secretType q.secretValue = some r)
    (hsecret : c.secretID = some sid ∧ c.deletedAt = none ∧ getSecret sid d' = some q ∨
      c.secretID = none ∧ c.deletedAt.isSome)
    (hr' : rowSecret C' c d' = .ok r') :
    r' = if c.deletedAt.isSome then ([], .unknown) else r := by
  rcases hsecret with ⟨hs, hdel, hq⟩ | ⟨hs, hdel⟩
  · rw [rowSecret, hs] at hr'
    have hsame := (getSecretEnvs_ok hr' hq).symm.trans hread
    simp [hdel, Option.some.inj hsame]
  · rw [rowSecret, hs] at hr'
    rw [if_pos hdel]
    exact (Except.ok.inj hr').symm

/-- A later removal passes the credentials of the creation exactly when the secret is a password
of a deleted cluster, or another secret of one that is not deleted. -/
theorem same_credentials_iff (hb : b.authInfo = some sid) (hq : getSecret sid d = some q)
    (hn : q.secretID < n) (hid : (handle C b d).created = some id)
    (hcfg : deployConfig C b d = some cfg)
    (hrow : getCluster id (run (act pg) ⟨(handle C b d).db, n⟩ ws).db = some c)
    (hpassed : (handleRemove C' R id (run (act pg) ⟨(handle C b d).db, n⟩ ws).db).passed =
      some cfg') :
    SameCredentials q.secretType b C'.pg c cfg cfg' ↔
      ((secretKinds.lookup q.secretType).isSome →
        (q.secretType = passwordType ↔ c.deletedAt.isSome)) := by
  obtain ⟨code, r, hk, hr, henvs, hvars⟩ := deployConfig_eq hcfg
  obtain ⟨hstored, hsecret⟩ := removed_row hb hq hn hr hk hid hrow
  obtain ⟨c', m, r', hrow', hm, hr', rfl⟩ := passed_eq hpassed
  obtain rfl := Option.some.inj (hrow.symm.trans hrow')
  have hcreated : secretEnvs q.secretType q.secretValue = some r := by
    rw [secretOf, hb] at hr
    exact getSecretEnvs_ok hr hq
  have hreread := rowVars_reread (nodup_allExtraVars b r _) hstored hm
  have hremoved := rowSecret_after hcreated hsecret hr'
  subst hremoved
  have hcreateShare := createShare_eq henvs
  have hremoveShare := removeShare_eq (if c.deletedAt.isSome then ([], .unknown) else r).1
    (removeVars m (if c.deletedAt.isSome then ([], .unknown) else r)) C'.pg c
  cases hkind : secretKinds.lookup q.secretType with
  | none =>
    obtain rfl : r = ([], .unknown) := by
      rw [secretEnvs, hkind] at hcreated
      exact (Option.some.inj hcreated).symm
    refine iff_of_true ⟨?_, ?_⟩ fun hno => by cases hno
    · rw [hcreateShare, hremoveShare]
      simp
    · simp [secretVars, hkind]
  | some k =>
    obtain ⟨values, rfl⟩ : ∃ values, r = (k.envs values, k.location) := by
      rw [secretEnvs, hkind] at hcreated
      obtain ⟨values, -, rfl⟩ := Option.map_eq_some_iff.mp hcreated
      exact ⟨values, rfl⟩
    have hshares := shares_iff hkind values (c.deletedAt.isSome = true)
    have hfirst : (if c.deletedAt.isSome then ([], .unknown) else (k.envs values, k.location)).1 =
        if c.deletedAt.isSome then [] else k.envs values := by
      split <;> rfl
    constructor
    · intro h _
      apply hshares.mp
      rw [← hfirst, ← hcreateShare, ← hremoveShare]
      exact h.envs
    · intro h
      have hcond := h rfl
      refine ⟨?_, ?_⟩
      · rw [hcreateShare, hremoveShare, hfirst]
        exact hshares.mpr hcond
      · by_cases ht : q.secretType = passwordType
        · rw [if_pos (hcond.mp ht), hvars]
          exact (secretVars_removed hreread).symm
        · exact secretVars_envs ht _ _

def quiet : Removal := ⟨fun _ => false, fun _ => "error"⟩

def keyValue : Json := .obj [("SSH_PRIVATE_KEY", .str "key")]

def keySecret : Db := storeValue 1 keyValue (oneSecret "ssh_key")

def passwordSecret : Db := storeValue 1 (passwordValue "secret") (oneSecret "password")

/-- The tables after a creation and an attempt to delete its secret. -/
def afterCreation (d : Db) : Db :=
  (run (act smooth.pg) ⟨(handle smooth deployBody d).db, 2⟩ [.deleteSecret 1]).db

theorem key_removed_alike :
    SameCredentials "ssh_key" deployBody smooth.pg
        ((getCluster 1 (afterCreation keySecret)).get (by decide +kernel))
        ((deployConfig smooth deployBody keySecret).get (by decide +kernel))
        ((handleRemove smooth quiet 1 (afterCreation keySecret)).passed.get (by decide +kernel)) ↔
      ((secretKinds.lookup "ssh_key").isSome → ("ssh_key" = passwordType ↔
        ((getCluster 1 (afterCreation keySecret)).get (by decide +kernel)).deletedAt.isSome)) :=
  same_credentials_iff (q := ⟨1, 1, "ssh_key", "server access", keyValue⟩) rfl rfl (by decide)
    (by decide +kernel) (Option.some_get _).symm (Option.some_get _).symm (Option.some_get _).symm

/-- The envs of the removal hold the password. -/
theorem password_removed_otherwise : ¬ ∀ (C C' : Circumstances) (R : Removal) (b : Body) (d : Db)
    (id sid n : ℤ) (q : Secret) (c : Cluster) (cfg cfg' : ManageClusterConfig) (pg : Postgres)
    (ws : List Write), b.authInfo = some sid → getSecret sid d = some q → q.secretID < n →
    (handle C b d).created = some id → deployConfig C b d = some cfg →
    getCluster id (run (act pg) ⟨(handle C b d).db, n⟩ ws).db = some c →
    (handleRemove C' R id (run (act pg) ⟨(handle C b d).db, n⟩ ws).db).passed = some cfg' →
    SameCredentials q.secretType b C'.pg c cfg cfg' := by
  intro h
  have hsame := h smooth smooth quiet deployBody passwordSecret 1 1 2
    ⟨1, 1, "password", "server access", passwordValue "secret"⟩
    ((getCluster 1 (afterCreation passwordSecret)).get (by decide +kernel))
    ((deployConfig smooth deployBody passwordSecret).get (by decide +kernel))
    ((handleRemove smooth quiet 1 (afterCreation passwordSecret)).passed.get (by decide +kernel))
    smooth.pg [.deleteSecret 1] rfl rfl (by decide) (by decide +kernel)
    (Option.some_get _).symm (Option.some_get _).symm (Option.some_get _).symm
  have hcard := congrArg Multiset.card hsame.envs
  revert hcard
  decide +kernel

end ConsoleRemoveCluster
