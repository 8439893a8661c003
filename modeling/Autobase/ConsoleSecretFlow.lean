import Autobase.ConsolePostClusterFailure

/-! # The flow of a secret value

Two runs of POST /clusters and GET /clusters/{id} that differ in the value of one secret.
Values that go to the environment of the container leave the tables alone; values that go to
the extra vars are written to the row. -/
namespace ConsoleSecretFlow

open ConsoleSchema ConsoleStatements ConsolePostCluster ConsolePostClusterFailure RowTables JsonText

def withValue (id : ℤ) (v : Json) (d : Db) : Tables :=
  { d.toTables with
    secrets := updateWhere (fun s => decide (s.secretID = id)) (fun s => { s with secretValue := v })
      d.secrets }

theorem withValue_ids (id : ℤ) (v : Json) (d : Db) :
    (withValue id v d).secrets.map Secret.secretID = d.secrets.map Secret.secretID :=
  map_updateWhere (f := fun s : Secret => { s with secretValue := v }) (fun _ => rfl) d.secrets

/-- The tables with another value of the secret. -/
def storeValue (id : ℤ) (v : Json) (d : Db) : Db where
  toTables := withValue id v d
  ok := { d.ok with
    secrets_pkey := withValue_ids id v d ▸ d.ok.secrets_pkey
    clusters_secret_fkey := withValue_ids id v d ▸ d.ok.clusters_secret_fkey }

/-- What POST /secrets stores: a struct of strings, or null. -/
def SecretValue (v : Json) : Prop :=
  v = .null ∨ ∃ ms, v = .obj ms ∧ ∀ m ∈ ms, ∃ s, m.2 = .str s

/-- The row of the cluster that a request has written. -/
def writtenRow (a : Answer) : Option Cluster := a.created.bind fun id => getCluster id a.db

/-- Neither the row nor any answer of GET tells the two runs apart. -/
structure Indistinguishable (pg : Postgres) (a₁ a₂ : Answer) : Prop where
  row : writtenRow a₁ = writtenRow a₂
  body : ∀ id, getClusterInfo pg id a₁.db = getClusterInfo pg id a₂.db

def passwordType : String := "password"

def credentials (v : Json) : Option (List String) := unmarshalStrings ["USERNAME", "PASSWORD"] v

/-! ## Tables that agree but for secret values -/

structure SecretsOnly (d₁ d₂ : Db) : Prop where
  tables : d₂.toTables = { d₁.toTables with secrets := d₂.secrets }
  ids : d₂.secrets.map Secret.secretID = d₁.secrets.map Secret.secretID

theorem constraints_secrets {t : Tables} {ss : List Secret}
    (h : ss.map Secret.secretID = t.secrets.map Secret.secretID) :
    Constraints { t with secrets := ss } ↔ Constraints t := by
  constructor
  · intro hc
    exact { hc with
      secrets_pkey := h ▸ hc.secrets_pkey
      clusters_secret_fkey := h ▸ hc.clusters_secret_fkey }
  · intro hc
    exact { hc with
      secrets_pkey := h ▸ hc.secrets_pkey
      clusters_secret_fkey := h ▸ hc.clusters_secret_fkey }

/-- A statement that leaves the secrets alone succeeds on both sides or on none. -/
theorem commit_agrees {t : Tables} {ss : List Secret}
    (h : ss.map Secret.secretID = t.secrets.map Secret.secretID) :
    Option.Rel SecretsOnly (commit t) (commit { t with secrets := ss }) := by
  by_cases hc : Constraints t
  · have hc' := (constraints_secrets h).mpr hc
    simp only [commit, hc, hc', dite_true]
    exact .some ⟨rfl, h⟩
  · have hc' : ¬ Constraints { t with secrets := ss } :=
      fun hc' => hc ((constraints_secrets h).mp hc')
    rw [commit, commit, dif_neg hc, dif_neg hc']
    exact .none

/-- The same row beside tables that agree. -/
def Agree {α : Type} (p q : α × Db) : Prop := p.1 = q.1 ∧ SecretsOnly p.2 q.2

theorem rel_map {α : Type} (a : α) {o₁ o₂ : Option Db} (h : Option.Rel SecretsOnly o₁ o₂) :
    Option.Rel Agree (o₁.map fun d => (a, d)) (o₂.map fun d => (a, d)) := by
  cases h with
  | none => exact .none
  | some h => exact .some ⟨rfl, h⟩

theorem SecretsOnly.elim {d₁ d₂ : Db} (h : SecretsOnly d₁ d₂) :
    ∃ ss ok, ss.map Secret.secretID = d₁.secrets.map Secret.secretID ∧
      d₂ = ⟨{ d₁.toTables with secrets := ss }, ok⟩ := by
  obtain ⟨t₂, ok₂⟩ := d₂
  obtain ⟨ht, hids⟩ := h
  simp only at ht hids
  generalize t₂.secrets = ss at ht hids
  subst ht
  exact ⟨ss, ok₂, hids, rfl⟩

variable {pg : Postgres} {d₁ d₂ : Db}

theorem createCluster_agrees (h : SecretsOnly d₁ d₂) (req : CreateClusterReq) (now : ℕ) :
    Option.Rel Agree (createCluster pg req now d₁) (createCluster pg req now d₂) := by
  obtain ⟨ss, ok, hids, rfl⟩ := h.elim
  unfold createCluster
  split
  · exact rel_map _ (commit_agrees hids)
  · exact .none

theorem createServer_agrees (h : SecretsOnly d₁ d₂) (req : CreateServerReq) :
    Option.Rel Agree (createServer pg req d₁) (createServer pg req d₂) := by
  obtain ⟨ss, ok, hids, rfl⟩ := h.elim
  unfold createServer
  cases pg.inetIn req.ipAddress with
  | none => exact .none
  | some ip =>
    simp only [Option.bind_some]
    split
    · exact rel_map _ (commit_agrees (t := updateServerCount _ _) hids)
    · exact .none

theorem createOperation_agrees (h : SecretsOnly d₁ d₂) (req : CreateOperationReq) (now : ℕ) :
    Option.Rel Agree (createOperation pg req now d₁) (createOperation pg req now d₂) := by
  obtain ⟨ss, ok, hids, rfl⟩ := h.elim
  unfold createOperation
  split
  · exact rel_map _ (commit_agrees hids)
  · exact .none

theorem getCluster_agrees (h : SecretsOnly d₁ d₂) (id : ℤ) :
    getCluster id d₁ = getCluster id d₂ := by
  obtain ⟨ss, ok, -, rfl⟩ := h.elim
  rfl

theorem rel_getCluster (id : ℤ) {o₁ o₂ : Option Db} (h : Option.Rel SecretsOnly o₁ o₂) :
    Option.Rel Agree (o₁.bind fun d => (getCluster id d).map fun c => (c, d))
      (o₂.bind fun d => (getCluster id d).map fun c => (c, d)) := by
  cases h with
  | none => exact .none
  | some h =>
    simp only [Option.bind_some, getCluster_agrees h id]
    cases getCluster id _ with
    | none => exact .none
    | some c => exact .some ⟨rfl, h⟩

theorem updateCluster_agrees (h : SecretsOnly d₁ d₂) (req : UpdateClusterReq) :
    Option.Rel Agree (updateCluster pg req d₁) (updateCluster pg req d₂) := by
  obtain ⟨ss, ok, hids, rfl⟩ := h.elim
  unfold updateCluster
  cases req.storedInfo pg with
  | none => exact .none
  | some info =>
    simp only [Option.bind_some]
    split
    · exact rel_getCluster req.id (commit_agrees (t := { d₁.toTables with
        clusters := updateWhere (fun c => decide (c.clusterID = req.id)) (req.apply info)
          d₁.clusters }) hids)
    · exact .none

/-! ## The branches of the handler -/

/-- Two answers with the same row, beside tables that agree. -/
structure AnswersAgree (a₁ a₂ : Answer) : Prop where
  created : a₁.created = a₂.created
  db : SecretsOnly a₁.db a₂.db

theorem insertHosts_agrees (C : Circumstances) (id : ℤ) (hosts : List Host)
    (h : SecretsOnly d₁ d₂) :
    (insertHosts C id hosts d₁).2 = (insertHosts C id hosts d₂).2 ∧
      SecretsOnly (insertHosts C id hosts d₁).1 (insertHosts C id hosts d₂).1 := by
  induction hosts generalizing d₁ d₂ with
  | nil => exact ⟨rfl, h⟩
  | cons x hosts ih =>
    obtain ⟨g, ip, v⟩ := x
    cases v with
    | obj m =>
      simp only [insertHosts]
      split
      · exact ⟨rfl, h⟩
      · have hrel : Option.Rel Agree (createServer C.pg (hostReq id ip m) d₁)
            (createServer C.pg (hostReq id ip m) d₂) := createServer_agrees h _
        generalize createServer C.pg (hostReq id ip m) d₁ = o₁ at hrel
        generalize createServer C.pg (hostReq id ip m) d₂ = o₂ at hrel
        cases hrel with
        | none => exact ⟨rfl, h⟩
        | some hp => exact ih hp.2
    | _ => exact ih h

theorem importCluster_agrees (C : Circumstances) {p₁ p₂ : Prepared}
    (hp : p₁.inventory = p₂.inventory) (id : ℤ) (h : SecretsOnly d₁ d₂) :
    AnswersAgree (importCluster C p₁ id d₁) (importCluster C p₂ id d₂) := by
  obtain ⟨hcall, hdb⟩ := insertHosts_agrees C id
    ((p₂.inventory.map fun i => hostsOf C i.2).getD []) h
  simp only [importCluster, hp]
  generalize insertHosts C id ((p₂.inventory.map fun i => hostsOf C i.2).getD []) d₁ = r₁ at hcall hdb
  generalize insertHosts C id ((p₂.inventory.map fun i => hostsOf C i.2).getD []) d₂ = r₂ at hcall hdb
  obtain ⟨e₁, call₁⟩ := r₁
  obtain ⟨e₂, call₂⟩ := r₂
  simp only at hcall hdb
  subst hcall
  cases call₁ with
  | none => exact ⟨rfl, hdb⟩
  | some call => exact ⟨rfl, hdb⟩

theorem repairStatus_agrees (C : Circumstances) (id : ℤ) (h : SecretsOnly d₁ d₂) :
    SecretsOnly (repairStatus C id d₁) (repairStatus C id d₂) := by
  have hrel : Option.Rel Agree
      (updateCluster C.pg ⟨id, none, some clusterStatusFailed, none⟩ d₁)
      (updateCluster C.pg ⟨id, none, some clusterStatusFailed, none⟩ d₂) :=
    updateCluster_agrees h _
  simp only [repairStatus, attempt]
  generalize updateCluster C.pg ⟨id, none, some clusterStatusFailed, none⟩ d₁ = o₁ at hrel
  generalize updateCluster C.pg ⟨id, none, some clusterStatusFailed, none⟩ d₂ = o₂ at hrel
  split
  · exact h
  · cases hrel with
    | none => exact h
    | some hp => exact hp.2

theorem startDeployment_agrees (C : Circumstances) (b : Body) (p₁ p₂ : Prepared) (id : ℤ)
    (h : SecretsOnly d₁ d₂) :
    AnswersAgree (startDeployment C b p₁ id d₁) (startDeployment C b p₂ id d₂) := by
  unfold startDeployment
  cases (if C.fails .manageCluster then none else C.docker) with
  | none => exact ⟨rfl, repairStatus_agrees C id h⟩
  | some code =>
    simp only
    have hrel : Option.Rel Agree (createOperation C.pg (deployReq C b id code) C.now d₁)
        (createOperation C.pg (deployReq C b id code) C.now d₂) := createOperation_agrees h _ _
    generalize createOperation C.pg (deployReq C b id code) C.now d₁ = o₁ at hrel
    generalize createOperation C.pg (deployReq C b id code) C.now d₂ = o₂ at hrel
    cases C.fails .createOperation with
    | true => exact ⟨rfl, repairStatus_agrees C id h⟩
    | false =>
      cases hrel with
      | none => exact ⟨rfl, repairStatus_agrees C id h⟩
      | some hp =>
        obtain ⟨ho, hdb⟩ := hp
        exact ⟨rfl, hdb⟩

/-- The envs go to docker only. -/
theorem writeCluster_agrees (C : Circumstances) (b : Body) {p₁ p₂ : Prepared}
    (hvars : p₁.extraVars = p₂.extraVars) (hinv : p₁.inventory = p₂.inventory)
    (hcount : p₁.serverCount = p₂.serverCount) (h : SecretsOnly d₁ d₂) :
    AnswersAgree (writeCluster C b p₁ d₁) (writeCluster C b p₂ d₂) := by
  have hreq : createReq C b p₁ = createReq C b p₂ := by
    simp only [createReq, hvars, hinv, hcount]
  have hrel : Option.Rel Agree (createCluster C.pg (createReq C b p₂) C.now d₁)
      (createCluster C.pg (createReq C b p₂) C.now d₂) := createCluster_agrees h _ _
  unfold writeCluster
  rw [hreq]
  generalize createCluster C.pg (createReq C b p₂) C.now d₁ = o₁ at hrel
  generalize createCluster C.pg (createReq C b p₂) C.now d₂ = o₂ at hrel
  cases C.fails .createCluster with
  | true => exact ⟨rfl, h⟩
  | false =>
    cases hrel with
    | none => exact ⟨rfl, h⟩
    | some hp =>
      obtain ⟨hc, hdb⟩ := hp
      simp only [Bool.false_eq_true, if_false, hc]
      split
      · exact importCluster_agrees C hinv _ hdb
      · exact startDeployment_agrees C b p₁ p₂ _ hdb

theorem indistinguishable_of_agree {a₁ a₂ : Answer} (h : AnswersAgree a₁ a₂) :
    Indistinguishable pg a₁ a₂ := by
  obtain ⟨hcreated, hdb⟩ := h
  constructor
  · rw [writtenRow, writtenRow, hcreated]
    congr 1
    funext id
    exact getCluster_agrees hdb id
  · intro id
    obtain ⟨ss, ok, -, he⟩ := hdb.elim
    rw [he]
    rfl

/-! ## The variables -/

theorem prefix_take {p l : List Char} (h : p.isPrefixOf l = true) {n : ℕ} (hn : n ≤ p.length) :
    l.take n = p.take n := by
  obtain ⟨r, rfl⟩ := List.isPrefixOf_iff_prefix.mp h
  exact List.take_append_of_le_length hn

/-- No variable made of a secret starts like the variable of the inventory. -/
theorem secret_names : ∀ k ∈ secretKinds, k.2.location = .env → ∀ v ∈ k.2.vars,
    2 ≤ v.1.toList.length ∧ (v.1.toList.map toLowerRune).take 2 ≠ ['a', 'n'] := by
  decide

theorem secret_not_inventory {k : SecretKind} {type : String} (hk : (type, k) ∈ secretKinds)
    (hloc : k.location = .env) {values : List String} {kv : String} (hkv : kv ∈ k.envs values) :
    (("ANSIBLE_INVENTORY_JSON".toList.map toLowerRune) ++ ['=']).isPrefixOf
      (kv.toList.map toLowerRune) = false := by
  obtain ⟨v, hv, rfl⟩ := List.mem_map.mp hkv
  obtain ⟨hlen, hne⟩ := secret_names _ hk hloc v hv
  rw [Bool.eq_false_iff]
  intro hp
  have htake := prefix_take hp (n := 2) (by decide)
  rw [String.toList_append, List.map_append, List.take_append_of_le_length (by simpa using hlen)]
    at htake
  exact hne (htake.trans (by decide))

/-- Variables with other names are passed over. -/
theorem getValFromVars_skip {key : String} {ms : List String}
    (h : ∀ kv ∈ ms, ((key.toList.map toLowerRune) ++ ['=']).isPrefixOf
      (kv.toList.map toLowerRune) = false) (xs ys : List String) :
    getValFromVars key (xs ++ (ms ++ ys)) = getValFromVars key (xs ++ ys) := by
  have hms : getValFromVars key (ms ++ ys) = getValFromVars key ys := by
    induction ms with
    | nil => rfl
    | cons m ms ih =>
      simp only [List.cons_append, getValFromVars, h m List.mem_cons_self, Bool.false_eq_true,
        if_false]
      exact ih fun kv hkv => h kv (List.mem_cons_of_mem _ hkv)
  induction xs with
  | nil => exact hms
  | cons x xs ih => simp only [List.cons_append, getValFromVars, ih]

theorem mem_secretKinds {type : String} {k : SecretKind} (h : secretKinds.lookup type = some k) :
    (type, k) ∈ secretKinds := by
  obtain ⟨l₁, l₂, he, -⟩ := List.lookup_eq_some_iff.mp h
  rw [he]
  simp

/-- What a supported type makes of a value, and where it goes. -/
theorem secretEnvs_cases {type : String} {v : Json} {r : List String × ParamLocation}
    (h : secretEnvs type v = some r) :
    r = ([], .unknown) ∨ ∃ k values, (type, k) ∈ secretKinds ∧
      unmarshalStrings k.fields v = some values ∧ r = (k.envs values, k.location) := by
  rw [secretEnvs] at h
  cases hk : secretKinds.lookup type with
  | none =>
    rw [hk] at h
    exact Or.inl (Option.some.inj h).symm
  | some k =>
    rw [hk] at h
    obtain ⟨values, hv, rfl⟩ := Option.map_eq_some_iff.mp h
    exact Or.inr ⟨k, values, mem_secretKinds hk, hv, rfl⟩

theorem password_kind : ∀ k ∈ secretKinds, k.2.location ≠ .unknown ∧
    (k.2.location = .extraVars ↔ k.1 = passwordType) := by
  decide

theorem secretOf_envs {C : Circumstances} {b : Body} {d : Db} {r : List String × ParamLocation}
    (h : secretOf C b d = .ok r) : ∃ type v, secretEnvs type v = some r := by
  rw [secretOf] at h
  cases hb : b.authInfo with
  | none =>
    rw [hb] at h
    obtain rfl := Except.ok.inj h
    exact ⟨"", .null, rfl⟩
  | some id =>
    simp only [hb, getSecretEnvs] at h
    split at h
    · cases h
    split at h
    · cases h
    · next secret _ =>
      split at h
      · cases h
      split at h
      · cases h
      · next r' hr =>
        obtain rfl := Except.ok.inj h
        exact ⟨_, _, hr⟩

theorem getValFromVars_secret (b : Body) {type : String} {v : Json}
    {r : List String × ParamLocation} (h : secretEnvs type v = some r) :
    getValFromVars "ANSIBLE_INVENTORY_JSON" (allEnvs b r) =
      getValFromVars "ANSIBLE_INVENTORY_JSON" (b.envs ++ getAnsibleLogEnv b.name) := by
  rw [allEnvs]
  apply getValFromVars_skip
  intro kv hkv
  rcases secretEnvs_cases h with rfl | ⟨k, values, hk, -, rfl⟩
  · simp at hkv
  · by_cases hloc : k.location = .env
    · rw [if_pos hloc] at hkv
      exact secret_not_inventory hk hloc hkv
    · rw [if_neg hloc] at hkv
      cases hkv

theorem readInventory_secret (C : Circumstances) (b : Body) {type : String} {v : Json}
    {r : List String × ParamLocation} (h : secretEnvs type v = some r) :
    readInventory C (allEnvs b r) = readInventory C (b.envs ++ getAnsibleLogEnv b.name) := by
  simp only [readInventory, getValFromVars_secret b h]

/-- Only the extra vars of what is written can depend on the value. -/
theorem prepare_secret (C : Circumstances) (b : Body) (proxy : Option Json) {type : String}
    {v₁ v₂ : Json} {r₁ r₂ : List String × ParamLocation} (h₁ : secretEnvs type v₁ = some r₁)
    (h₂ : secretEnvs type v₂ = some r₂)
    (hvars : allExtraVars b r₁ proxy = allExtraVars b r₂ proxy) :
    (prepare C b r₁ proxy).extraVars = (prepare C b r₂ proxy).extraVars ∧
      (prepare C b r₁ proxy).inventory = (prepare C b r₂ proxy).inventory ∧
      (prepare C b r₁ proxy).serverCount = (prepare C b r₂ proxy).serverCount := by
  simp only [prepare, hvars, readInventory_secret C b h₁, readInventory_secret C b h₂]
  split
  · exact ⟨rfl, rfl, rfl⟩
  · exact ⟨rfl, rfl, rfl⟩

/-! ## Values -/

theorem stringField_isSome {v : Json} (h : SecretValue v) (name : String) :
    (stringField v name).isSome := by
  rcases h with rfl | ⟨ms, rfl, hms⟩
  · rfl
  · simp only [stringField]
    generalize "" = s
    induction ms generalizing s with
    | nil => rfl
    | cons m ms ih =>
      obtain ⟨k, v⟩ := m
      obtain ⟨u, rfl⟩ := hms _ List.mem_cons_self
      simp only [stringMember]
      split
      · exact ih (fun m hm => hms m (List.mem_cons_of_mem _ hm)) u
      · exact ih (fun m hm => hms m (List.mem_cons_of_mem _ hm)) s

theorem unmarshalStrings_isSome {v : Json} (h : SecretValue v) (names : List String) :
    (unmarshalStrings names v).isSome := by
  rw [unmarshalStrings]
  induction names with
  | nil => rfl
  | cons n names ih =>
    obtain ⟨s, hs⟩ := Option.isSome_iff_exists.mp (stringField_isSome h n)
    obtain ⟨ss, hss⟩ := Option.isSome_iff_exists.mp ih
    simp [hs, hss]

theorem secretEnvs_isSome {v : Json} (h : SecretValue v) (type : String) :
    ∃ r, secretEnvs type v = some r := by
  rw [secretEnvs]
  cases secretKinds.lookup type with
  | none => exact ⟨_, rfl⟩
  | some k =>
    obtain ⟨values, hv⟩ := Option.isSome_iff_exists.mp (unmarshalStrings_isSome h k.fields)
    refine ⟨(k.envs values, k.location), ?_⟩
    simp [hv]

theorem credentials_pair {v : Json} (h : SecretValue v) :
    ∃ username password, credentials v = some [username, password] := by
  obtain ⟨u, hu⟩ := Option.isSome_iff_exists.mp (stringField_isSome h "USERNAME")
  obtain ⟨p, hp⟩ := Option.isSome_iff_exists.mp (stringField_isSome h "PASSWORD")
  exact ⟨u, p, by simp [credentials, unmarshalStrings, hu, hp]⟩

theorem lookup_setVar (k k' : String) (v : Json) (m : VarMap) :
    (setVar k v m).lookup k' = if k' = k then some v else m.lookup k' := by
  rw [setVar_eq_assign]
  exact ObjectLiterals.lookup_assign k k' v m

theorem setAssignment_append (m : VarMap) {k : String} (hk : '=' ∉ k.toList) (v : String) :
    setAssignment m (k ++ ("=" ++ v)) = setVar k (.str v) m := by
  have hsplit : splitAssignment (k ++ ("=" ++ v)).toList = some (k.toList, v.toList) := by
    rw [String.toList_append, String.toList_append]
    exact splitAssignment_append hk
  simp only [setAssignment, hsplit, String.ofList_toList]

theorem lookup_setAssignments {k : SecretKind} {values : List String} {key : String}
    (h : ∀ v ∈ k.vars, '=' ∉ v.1.toList ∧ v.1 ≠ key) (m : VarMap) :
    ((k.envs values).foldl setAssignment m).lookup key = m.lookup key := by
  rw [SecretKind.envs]
  generalize k.vars = vars at h
  induction vars generalizing m with
  | nil => rfl
  | cons v vars ih =>
    obtain ⟨heq, hne⟩ := h v List.mem_cons_self
    rw [List.map_cons, List.foldl_cons, setAssignment_append m heq]
    rw [ih _ (fun u hu => h u (List.mem_cons_of_mem _ hu)), lookup_setVar, if_neg (Ne.symm hne)]

def passwordKind : SecretKind :=
  ⟨["USERNAME", "PASSWORD"],
    [("ansible_user", 0), ("ansible_ssh_pass", 1), ("ansible_sudo_pass", 1)], .extraVars⟩

theorem secretEnvs_password (v : Json) :
    secretEnvs passwordType v =
      (credentials v).map fun values => (passwordKind.envs values, .extraVars) := by
  have hk : secretKinds.lookup passwordType = some passwordKind := rfl
  simp only [secretEnvs, hk, credentials, passwordKind]

/-- The password and its user are read back from the extra vars. -/
theorem password_vars (b : Body) (proxy : Option Json) (username password : String) :
    (allExtraVars b (passwordKind.envs [username, password], .extraVars) proxy).lookup
        "ansible_user" = some (.str username) ∧
      (allExtraVars b (passwordKind.envs [username, password], .extraVars) proxy).lookup
        "ansible_ssh_pass" = some (.str password) ∧
      (allExtraVars b (passwordKind.envs [username, password], .extraVars) proxy).lookup
        "ansible_sudo_pass" = some (.str password) := by
  have hvars : ∀ m : VarMap, (passwordKind.envs [username, password]).foldl setAssignment m =
      setVar "ansible_sudo_pass" (.str password) (setVar "ansible_ssh_pass" (.str password)
        (setVar "ansible_user" (.str username) m)) := by
    intro m
    simp only [passwordKind, SecretKind.envs, List.map_cons, List.map_nil, List.foldl_cons,
      List.foldl_nil, List.getD_cons_zero, List.getD_cons_succ]
    rw [setAssignment_append _ (by decide), setAssignment_append _ (by decide),
      setAssignment_append _ (by decide)]
  simp only [allExtraVars, if_true, hvars]
  cases proxy <;> simp [lookup_setVar, proxySettingName]

/-! ## The written row -/

section Columns

/-! What a branch does after the insert changes no column but the status and the count. -/

variable {β : Type} {g : Cluster → β}

theorem column_insertHosts (hcount : ∀ (c : Cluster) (n : ℤ), g { c with serverCount := n } = g c)
    (C : Circumstances) (id : ℤ) (hosts : List Host) (d : Db) (i : ℤ) :
    (getCluster i (insertHosts C id hosts d).1).map g = (getCluster i d).map g := by
  induction hosts generalizing d with
  | nil => rfl
  | cons h hosts ih =>
    obtain ⟨gr, ip, v⟩ := h
    cases v with
    | obj m =>
      simp only [insertHosts]
      split
      · rfl
      · cases hc : createServer C.pg (hostReq id ip m) d with
        | none => rfl
        | some q =>
          obtain ⟨s, d'⟩ := q
          simp only
          rw [ih]
          exact column_createServer hcount hc i
    | _ => exact ih d

theorem column_repairStatus
    (hupdate : ∀ (req : UpdateClusterReq) info c, g (req.apply info c) = g c)
    (C : Circumstances) (id : ℤ) (d : Db) (i : ℤ) :
    (getCluster i (repairStatus C id d)).map g = (getCluster i d).map g := by
  exact attempt_cluster_keeps (I := fun t => (getCluster i t).map g = (getCluster i d).map g) rfl
    fun c d' hu => column_updateCluster hupdate hu i

theorem column_importCluster (hcount : ∀ (c : Cluster) (n : ℤ), g { c with serverCount := n } = g c)
    (C : Circumstances) (p : Prepared) (id : ℤ) (d : Db) (i : ℤ) :
    (importCluster C p id d).created = some id ∧
      (getCluster i (importCluster C p id d).db).map g = (getCluster i d).map g := by
  have hrow := column_insertHosts hcount C id ((p.inventory.map fun i => hostsOf C i.2).getD []) d i
  unfold importCluster
  simp only
  split <;> next heq => exact ⟨rfl, by rw [← hrow, heq]⟩

theorem column_startDeployment
    (hupdate : ∀ (req : UpdateClusterReq) info c, g (req.apply info c) = g c)
    (C : Circumstances) (b : Body) (p : Prepared) (id : ℤ) (d : Db) (i : ℤ) :
    (startDeployment C b p id d).created = some id ∧
      (getCluster i (startDeployment C b p id d).db).map g = (getCluster i d).map g := by
  rw [startDeployment]
  split
  · exact ⟨rfl, column_repairStatus hupdate C id d i⟩
  · next code _ =>
    split
    · exact ⟨rfl, column_repairStatus hupdate C id d i⟩
    · next o d' ho =>
      refine ⟨rfl, ?_⟩
      by_cases hf : C.fails .createOperation = true
      · simp [hf] at ho
      · simp only [hf, Bool.false_eq_true, if_false] at ho
        obtain ⟨-, -, ht⟩ := createOperation_eq_some.mp ho
        simp only [getCluster, ht]

/-- The row of an answer is the inserted one, but for the status and the count. -/
theorem written_column (hcount : ∀ (c : Cluster) (n : ℤ), g { c with serverCount := n } = g c)
    (hupdate : ∀ (req : UpdateClusterReq) info c, g (req.apply info c) = g c)
    {C : Circumstances} {b : Body} {d : Db} {p : Prepared} {d' : Db} (h : Written C b d p d') :
    (writtenRow (handle C b d)).map g =
      some (g ((createReq C b p).row d.nextClusterID C.now)) := by
  have hstored := congrArg (Option.map g) (getCluster_of_mem h.mem)
  rw [Option.map_some] at hstored
  rw [h.answer, ← hstored]
  cases b.existingCluster with
  | true =>
    obtain ⟨hid, hrow⟩ := column_importCluster hcount C p d.nextClusterID d' d.nextClusterID
    simp only [if_true, writtenRow, hid, Option.bind_some]
    exact hrow
  | false =>
    obtain ⟨hid, hrow⟩ := column_startDeployment hupdate C b p d.nextClusterID d' d.nextClusterID
    simp only [Bool.false_eq_true, if_false, writtenRow, hid, Option.bind_some]
    exact hrow

end Columns

/-- The row of an answer carries the extra vars the handler prepared. -/
theorem written_vars {C : Circumstances} {b : Body} {d : Db} {p : Prepared} {d' : Db}
    (h : Written C b d p d') :
    (writtenRow (handle C b d)).map Cluster.extraVars = some (some (.obj p.extraVars)) :=
  written_column (fun _ _ => rfl) (fun _ _ _ => rfl) h

/-- Only a deployment starts a container, with the envs that were prepared. -/
theorem container_written {C : Circumstances} {b : Body} {d : Db} {code : String} {envs : List String}
    (h : (handle C b d).container = some (code, envs)) :
    ∃ p d', Written C b d p d' ∧ envs = p.envs := by
  have hcreated : ∃ id, (handle C b d).created = some id := by
    rw [handle] at h ⊢
    split
    · next hold =>
      rw [if_pos hold] at h
      cases h
    · next hold =>
      rw [if_neg hold] at h
      cases hs : secretOf C b d with
      | error e =>
        rw [hs] at h
        cases h
      | ok secret =>
        simp only [hs, writeCluster] at h ⊢
        split
        · next hnone =>
          rw [hnone] at h
          cases h
        · next c d' hc =>
          split
          · exact ⟨_, (column_importCluster (g := Cluster.extraVars) (fun _ _ => rfl) C _ _ d'
              c.clusterID).1⟩
          · exact ⟨_, (column_startDeployment (g := Cluster.extraVars) (fun _ _ _ => rfl) C b _ _ d'
              c.clusterID).1⟩
  obtain ⟨id, hid⟩ := hcreated
  obtain ⟨p, d', hw⟩ := created_written hid
  refine ⟨p, d', hw, ?_⟩
  rw [hw.answer] at h
  split at h
  · unfold importCluster at h
    simp only at h
    split at h <;> cases h
  · rw [startDeployment] at h
    split at h
    · cases h
    · split at h
      · exact (Prod.mk.inj (Option.some.inj h)).2.symm
      · exact (Prod.mk.inj (Option.some.inj h)).2.symm

/-! ## Two runs -/

theorem getSecret_storeValue {sid : ℤ} {secret : Secret} (hs : getSecret sid d₁ = some secret)
    (v : Json) :
    getSecret sid (storeValue sid v d₁) = some { secret with secretValue := v } := by
  have hid : secret.secretID = sid := by simpa using List.find?_some hs
  have hrow := find?_updateWhere (p := fun s => decide (s.secretID = sid))
    (q := fun s => decide (s.secretID = sid)) (f := fun s => { s with secretValue := v })
    (fun _ => rfl) d₁.secrets
  have hs' : d₁.secrets.find? (fun s => decide (s.secretID = sid)) = some secret := hs
  rw [hs', Option.map_some, if_pos (by simpa using hid)] at hrow
  exact hrow

theorem secretsOnly_storeValue (sid : ℤ) (v₁ v₂ : Json) (d : Db) :
    SecretsOnly (storeValue sid v₁ d) (storeValue sid v₂ d) :=
  ⟨rfl, (withValue_ids sid v₂ d).trans (withValue_ids sid v₁ d).symm⟩

variable {C : Circumstances} {b : Body} {d : Db} {sid : ℤ} {secret : Secret} {v v₁ v₂ : Json}
  {r r₁ r₂ : List String × ParamLocation}

theorem secretOf_storeValue (hb : b.authInfo = some sid) (hs : getSecret sid d = some secret)
    (hr : secretEnvs secret.secretType v = some r) :
    secretOf C b (storeValue sid v d) =
      if C.fails .getSecret then .error (C.errorText .getSecret)
      else if C.fails .getSecretVal then .error (C.errorText .getSecretVal)
      else .ok r := by
  simp only [secretOf, hb, getSecretEnvs, getSecret_storeValue hs v, hr]

theorem answers_agree (hb : b.authInfo = some sid) (hs : getSecret sid d = some secret)
    (hr₁ : secretEnvs secret.secretType v₁ = some r₁)
    (hr₂ : secretEnvs secret.secretType v₂ = some r₂)
    (hvars : allExtraVars b r₁ (getProxySetting C d) = allExtraVars b r₂ (getProxySetting C d)) :
    AnswersAgree (handle C b (storeValue sid v₁ d)) (handle C b (storeValue sid v₂ d)) := by
  have hdb := secretsOnly_storeValue sid v₁ v₂ d
  have hname : ∀ v, getClusterByName b.name (storeValue sid v d) = getClusterByName b.name d :=
    fun _ => rfl
  have hproxy : ∀ v, getProxySetting C (storeValue sid v d) = getProxySetting C d := fun _ => rfl
  obtain ⟨hextra, hinv, hcount⟩ := prepare_secret C b (getProxySetting C d) hr₁ hr₂ hvars
  simp only [handle, hname, hproxy, secretOf_storeValue hb hs hr₁, secretOf_storeValue hb hs hr₂]
  by_cases hold : (!C.fails .getClusterByName && (getClusterByName b.name d).isSome) = true
  · simp only [hold, if_true]
    exact ⟨rfl, hdb⟩
  · simp only [hold]
    by_cases hget : C.fails .getSecret = true
    · simp only [hget, if_true]
      exact ⟨rfl, hdb⟩
    · by_cases hval : C.fails .getSecretVal = true
      · simp only [hget, hval, if_true]
        exact ⟨rfl, hdb⟩
      · simp only [hget, hval]
        exact writeCluster_agrees C b hextra hinv hcount hdb

theorem prepare_extraVars (C : Circumstances) (b : Body) (r : List String × ParamLocation)
    (proxy : Option Json) : (prepare C b r proxy).extraVars = allExtraVars b r proxy := by
  simp only [prepare]
  split <;> rfl

/-- A written row holds the variables made of the value. -/
theorem storedVars_value (hb : b.authInfo = some sid) (hs : getSecret sid d = some secret)
    (hr : secretEnvs secret.secretType v = some r)
    (hw : (handle C b (storeValue sid v d)).created.isSome) :
    (writtenRow (handle C b (storeValue sid v d))).map Cluster.extraVars =
      some (some (.obj (allExtraVars b r (getProxySetting C d)))) := by
  obtain ⟨id, hid⟩ := Option.isSome_iff_exists.mp hw
  obtain ⟨p, d', h⟩ := created_written hid
  obtain ⟨r', hr', rfl⟩ := h.secret
  rw [secretOf_storeValue hb hs hr] at hr'
  have hrr : r' = r := by
    split at hr'
    · cases hr'
    · split at hr'
      · cases hr'
      · exact (Except.ok.inj hr').symm
  rw [written_vars h, prepare_extraVars, hrr]
  rfl

theorem allExtraVars_eq (b : Body) (proxy : Option Json) {type : String}
    (hr₁ : secretEnvs type v₁ = some r₁) (hr₂ : secretEnvs type v₂ = some r₂)
    (h : type ≠ passwordType ∨ credentials v₁ = credentials v₂) :
    allExtraVars b r₁ proxy = allExtraVars b r₂ proxy := by
  by_cases ht : type = passwordType
  · have hcred := h.resolve_left (not_not.mpr ht)
    subst ht
    have hr : r₁ = r₂ := by
      rw [secretEnvs_password, hcred, ← secretEnvs_password, hr₂] at hr₁
      exact (Option.some.inj hr₁).symm
    rw [hr]
  · -- no other type sends its variables to the extra vars
    have hloc : ∀ {v r}, secretEnvs type v = some r → r.2 ≠ .extraVars := by
      intro v r hr
      rcases secretEnvs_cases hr with rfl | ⟨k, values, hk, -, rfl⟩
      · decide
      · exact fun he => ht ((password_kind _ hk).2.mp he)
    simp only [allExtraVars, if_neg (hloc hr₁), if_neg (hloc hr₂)]

theorem credentials_eq (b : Body) (proxy : Option Json) (h₁ : SecretValue v₁)
    (h₂ : SecretValue v₂) (hr₁ : secretEnvs passwordType v₁ = some r₁)
    (hr₂ : secretEnvs passwordType v₂ = some r₂)
    (h : allExtraVars b r₁ proxy = allExtraVars b r₂ proxy) : credentials v₁ = credentials v₂ := by
  have hlookup : ∀ {v r}, SecretValue v → secretEnvs passwordType v = some r →
      ∃ username password, credentials v = some [username, password] ∧
        (allExtraVars b r proxy).lookup "ansible_user" = some (.str username) ∧
        (allExtraVars b r proxy).lookup "ansible_ssh_pass" = some (.str password) := by
    intro v r hv hr
    obtain ⟨username, password, hcred⟩ := credentials_pair hv
    rw [secretEnvs_password, hcred] at hr
    obtain rfl := Option.some.inj hr
    have hvars := password_vars b proxy username password
    exact ⟨username, password, hcred, hvars.1, hvars.2.1⟩
  obtain ⟨u₁, p₁, hc₁, hu₁, hp₁⟩ := hlookup h₁ hr₁
  obtain ⟨u₂, p₂, hc₂, hu₂, hp₂⟩ := hlookup h₂ hr₂
  rw [h, hu₂] at hu₁
  rw [h, hp₂] at hp₁
  rw [hc₁, hc₂, Json.str.inj (Option.some.inj hu₁), Json.str.inj (Option.some.inj hp₁)]

/-- A run that leaves a row is told apart by the row from a run that leaves another one, or none. -/
theorem vars_eq (hb : b.authInfo = some sid) (hs : getSecret sid d = some secret)
    (hr₁ : secretEnvs secret.secretType v₁ = some r₁)
    (hr₂ : secretEnvs secret.secretType v₂ = some r₂)
    (hw : (handle C b (storeValue sid v₁ d)).created.isSome)
    (h : writtenRow (handle C b (storeValue sid v₁ d)) =
      writtenRow (handle C b (storeValue sid v₂ d))) :
    allExtraVars b r₁ (getProxySetting C d) = allExtraVars b r₂ (getProxySetting C d) := by
  have hv₁ := storedVars_value hb hs hr₁ hw
  have hw₂ : (handle C b (storeValue sid v₂ d)).created.isSome := by
    rw [h] at hv₁
    by_contra hnone
    rw [Option.not_isSome_iff_eq_none] at hnone
    rw [writtenRow, hnone] at hv₁
    cases hv₁
  have hv₂ := storedVars_value hb hs hr₂ hw₂
  rw [h, hv₂] at hv₁
  exact (Json.obj.inj (Option.some.inj (Option.some.inj hv₁))).symm

/-- When one of the runs writes the row, the value does not show exactly when the secret is no
password or both values hold the same user and password. -/
theorem secret_hidden_iff (hb : b.authInfo = some sid) (hs : getSecret sid d = some secret)
    (h₁ : SecretValue v₁) (h₂ : SecretValue v₂)
    (hw : (handle C b (storeValue sid v₁ d)).created.isSome ∨
      (handle C b (storeValue sid v₂ d)).created.isSome) :
    Indistinguishable C.pg (handle C b (storeValue sid v₁ d)) (handle C b (storeValue sid v₂ d)) ↔
      secret.secretType ≠ passwordType ∨ credentials v₁ = credentials v₂ := by
  obtain ⟨r₁, hr₁⟩ := secretEnvs_isSome h₁ secret.secretType
  obtain ⟨r₂, hr₂⟩ := secretEnvs_isSome h₂ secret.secretType
  constructor
  · intro h
    by_cases ht : secret.secretType = passwordType
    · have hvars : allExtraVars b r₁ (getProxySetting C d) =
          allExtraVars b r₂ (getProxySetting C d) := by
        rcases hw with hw | hw
        · exact vars_eq hb hs hr₁ hr₂ hw h.row
        · exact (vars_eq hb hs hr₂ hr₁ hw h.row.symm).symm
      rw [ht] at hr₁ hr₂
      exact Or.inr (credentials_eq b _ h₁ h₂ hr₁ hr₂ hvars)
    · exact Or.inl ht
  · intro h
    exact indistinguishable_of_agree
      (answers_agree hb hs hr₁ hr₂ (allExtraVars_eq b _ hr₁ hr₂ h))

/-- The migrated database with one secret of the given type. -/
def oneSecret (type : String) : Db where
  toTables := { migrated.toTables with secrets := [⟨1, 1, type, "server access", .null⟩] }
  ok := { migrated.ok with
    secrets_pkey := List.nodup_singleton _
    clusters_secret_fkey := fun _ hc => absurd hc List.not_mem_nil }

def deployBody : Body where
  projectID := 1
  environmentID := 1
  name := "postgres-cluster-01"
  description := ""
  authInfo := some 1
  existingCluster := false
  extraVars := none
  envs := []

def passwordValue (password : String) : Json :=
  .obj [("USERNAME", .str "root"), ("PASSWORD", .str password)]

theorem secretValue_password (password : String) : SecretValue (passwordValue password) := by
  refine Or.inr ⟨_, rfl, ?_⟩
  intro m hm
  simp only [List.mem_cons, List.not_mem_nil, or_false] at hm
  rcases hm with rfl | rfl
  · exact ⟨_, rfl⟩
  · exact ⟨_, rfl⟩

theorem password_hidden :
    Indistinguishable smooth.pg
        (handle smooth deployBody (storeValue 1 (passwordValue "a") (oneSecret "password")))
        (handle smooth deployBody (storeValue 1 (passwordValue "b") (oneSecret "password"))) ↔
      "password" ≠ passwordType ∨
        credentials (passwordValue "a") = credentials (passwordValue "b") := by
  have hs : getSecret 1 (oneSecret "password") =
      some ⟨1, 1, "password", "server access", .null⟩ := rfl
  have hw : (handle smooth deployBody
      (storeValue 1 (passwordValue "a") (oneSecret "password"))).created.isSome := by
    decide +kernel
  exact secret_hidden_iff rfl hs (secretValue_password "a") (secretValue_password "b") (Or.inl hw)

/-- Two passwords, two rows. -/
theorem password_shown :
    ¬ Indistinguishable smooth.pg
      (handle smooth deployBody (storeValue 1 (passwordValue "a") (oneSecret "password")))
      (handle smooth deployBody (storeValue 1 (passwordValue "b") (oneSecret "password"))) := by
  intro h
  have hvars := congrArg (fun c => (c.bind Cluster.extraVars).map marshalText) h.row
  exact absurd hvars (by decide +kernel)

end ConsoleSecretFlow
