import Autobase.ConsoleClusterForm
import Autobase.ObjectLiterals

/-! # The extra vars of the form

The mapping of the form to extra vars, which the YAML editor shows when it is opened. A read of
a field of a missing value throws, and so does the trimming of a part that a line does not have;
a mapping that throws gives nothing. -/
namespace ConsoleFormExtraVars

open ConsoleClusterForm ConsoleParameters JsonText ObjectLiterals

/-- The assignments of a literal; a value that is missing is written by no one. -/
abbrev Fields := List (String × Option Json)

def text (s : Option String) : Option Json := s.map .str

def record (fields : Fields) : Json := .obj (members fields)

def setTrue (key : String) : Fields := [(key, some (.bool true))]

def truthy : Option Json → Bool
  | none | some .null => false
  | some (.bool b) => b
  | some (.num x) => decide (x.mantissa ≠ 0)
  | some (.str s) => decide (s ≠ "")
  | some (.arr _) | some (.obj _) => true

/-! ## Parameters -/

def unitChar (a : UInt16) : Char :=
  if isHighSurrogate a.toNat || isLowSurrogate a.toNat then replacementChar else Char.ofNat a.toNat

/-- The characters of a text as its reader gets them. -/
def characters : JsString → List Char
  | [] => []
  | [a] => [unitChar a]
  | a :: b :: rest =>
    if isHighSurrogate a.toNat && isLowSurrogate b.toNat then
      Char.ofNat (0x10000 + (a.toNat - 0xd800) * 0x400 + (b.toNat - 0xdc00)) :: characters rest
    else unitChar a :: characters (b :: rest)

def jsText (s : JsString) : Json := .str (String.ofList (characters s))

def convertedValue : Converted → Option Json
  | .text value => value.map jsText
  | .parameters ps => some (.arr (ps.map fun p =>
      record [("option", some (jsText p.option)), ("value", some (jsText p.value))]))

/-- The variables that a text of parameters brings with it; an empty text brings none. -/
def parameterFields (value : Option JsString) (fields : Option Json → Fields) : Option Fields :=
  if value.any fun v => !v.isEmpty then
    (convertModalParametersToArray value).map fun c => fields (convertedValue c)
  else some []

/-! ## Cloud providers -/

def getCommonExtraVars (values : ClusterFormValues) : Fields :=
  [("postgresql_version", values.postgresVersion.map natural),
    ("patroni_cluster_name", text values.clusterName)]

def providerCodeToAnsibleUserMap : List (String × String) :=
  [("aws", "ubuntu"), ("gcp", "root"), ("azure", "azureadmin"), ("digitalocean", "root"),
    ("hetzner", "root")]

def sshPublicKeys (values : ClusterFormValues) : Fields :=
  match values.sshPublicKey with
  | none | some "" => []
  | some keys =>
    [("ssh_public_keys", some (.arr ((keys.toList.splitOnP fun c => c == '\n' || c == '\r').map
      fun key => .str ("'" ++ (String.ofList key ++ "'")))))]

def spotProviders : List (Option String) := [some "aws", some "gcp", some "azure"]

/-- What expert mode adds for a cloud provider. -/
def cloudExpertVars (values : ClusterFormValues) : Fields :=
  [("postgresql_data_dir_mount_fstype", text values.fileSystemType),
    ("volume_type", text values.volumeType),
    ("database_public_access", some (.bool values.isDbPublicAccess)),
    ("cloud_load_balancer", some (.bool values.isCloudLoadBalancer))] ++
  ((if spotProviders.contains (values.provider.bind Provider.code) && values.isSpotInstances then
    setTrue "server_spot" else []) ++
  (if required values.serverNetwork then [("server_network", text values.serverNetwork)] else []))

def serverType (values : ClusterFormValues) : Option (Option String) :=
  if values.instanceType = some "custom" then some values.serverType
  else values.instanceConfig.map InstanceConfig.code

def getCloudProviderExtraVars (expert : Bool) (values : ClusterFormValues) : Option Fields :=
  values.provider.bind fun provider =>
  let user := provider.code.bind fun code => providerCodeToAnsibleUserMap.lookup code
  (serverType values).bind fun type =>
  values.regionConfig.bind fun region =>
  region.cloudImage.map fun cloudImage =>
    getCommonExtraVars values ++
    ([("cloud_provider", text provider.code), ("server_type", text type),
      ("server_location", text region.code), ("server_count", values.instancesAmount),
      ("volume_size", values.storageAmount),
      ("ansible_user", text user)] ++
    (sshPublicKeys values ++
    (((cloudImage.image.getD []).map fun kv => (kv.1, some kv.2)) ++
    (if expert then cloudExpertVars values else []))))

/-! ## Local machines -/

def dcsExtraVars (values : ClusterFormValues) : Fields :=
  if values.isDeployNewCluster then []
  else setTrue "dcs_exists" ++
    (if values.type = some "etcd" then
      [("patroni_etcd_hosts", values.dcsDatabases.map fun rows => .arr (rows.map fun database =>
        record [("host", text database.dcsDatabaseIpAddress),
          ("port", text database.dcsDatabasePort)]))]
    else
      [("consul_join", values.dcsDatabases.map fun rows => .arr (rows.map fun database =>
        (text database.dcsDatabaseIpAddress).getD .null)),
        ("consul_ports_serf_lan", some (natural 8301))])

/-- The name and the password go along unless a stored secret has them. -/
def sendsCredentials (values : ClusterFormValues) (secretId : Option ℕ) : Bool :=
  decide (secretId.getD 0 = 0) && !values.isUseDefinedSecret &&
    decide (values.authenticationMethod = some "password")

def getLocalMachineExtraVars (expert : Bool) (values : ClusterFormValues)
    (secretId : Option ℕ) : Fields :=
  getCommonExtraVars values ++
  ((if required values.clusterVIPAddress then [("cluster_vip", text values.clusterVIPAddress)]
    else []) ++
  ((if values.isHaproxyEnabled then setTrue "with_haproxy_load_balancing" else []) ++
  ((if values.databaseServerExistingCluster then setTrue "existing_cluster" else []) ++
  ((if sendsCredentials values secretId then
      [("ansible_user", text values.username), ("ansible_ssh_pass", text values.password)]
    else []) ++
  (if expert then
    ("dcs_type", text values.type) :: (dcsExtraVars values ++
      [("postgresql_data_dir", text values.dataDirectory)])
  else [])))))

/-! ## What both have in common -/

structure Extensions where
  db : List Json
  extraVars : Fields

def chosen (value : Option Extension) : List String := (value.bind Extension.db).getD []

/-- An extension of no database leaves the names alone. -/
def addExtension (names : Option (List (String × String))) (acc : Extensions)
    (entry : String × Option Extension) : Option Extensions :=
  if chosen entry.2 = [] then some acc
  else names.map fun names =>
    { db := acc.db ++ (chosen entry.2).map fun item =>
        record [("ext", some (.str entry.1)), ("db", text (names.lookup item))]
      extraVars := acc.extraVars ++
        (if entry.2.any Extension.isThirdParty then setTrue ("enable_" ++ entry.1) else []) }

def getExtensions (values : ClusterFormValues) : Option Extensions :=
  values.extensions.bind fun entries =>
    entries.foldlM (addExtension values.databasesBlockNames) ⟨[], []⟩

def databaseFields (values : ClusterFormValues) : Fields :=
  [("postgresql_databases", values.databasesBlock.map fun rows => .arr (rows.map fun db =>
      record [("db", text db.databasesBlockDatabaseName),
        ("owner", text db.databasesBlockUsername), ("encoding", text db.databasesBlockEncoding),
        ("lc_ctype", text db.databasesBlockLocale), ("lc_collate", text db.databasesBlockLocale)])),
    ("postgresql_users", values.databasesBlock.map fun rows => .arr (rows.map fun db =>
      record [("name", text db.databasesBlockUsername),
        ("password", text db.databasesBlockUserPassword)]))]

def poolFields (values : ClusterFormValues) : Fields :=
  if values.isConnectionPoolerEnabled then
    [("pgbouncer_pools", values.pools.map fun rows => .arr (rows.map fun pool =>
      record [("name", text pool.poolName), ("dbname", text pool.poolName),
        ("pool_parameters", some (record [("pool_size", pool.poolSize),
          ("pool_mode", text pool.poolMode)]))]))]
  else []

def usesBackups (values : ClusterFormValues) : Bool :=
  values.isBackupsEnabled && required values.backupMethod

/-- The keys of an object store, which two providers need. -/
def backupKeys (values : ClusterFormValues) (key secret : String) : Fields :=
  if [some "digitalocean", some "hetzner"].contains (values.provider.bind Provider.code) then
    [(key, text values.backupAccessKey), (secret, text values.backupSecretKey)]
  else []

def backupFields (values : ClusterFormValues) : Option Fields :=
  if usesBackups values then
    if values.backupMethod = some "pgbackrest_install" then
      (parameterFields values.backupConfig fun c =>
        [("pgbackrest_auto_conf", some (.bool false)),
          ("pgbackrest_conf", some (record [("global", c)]))]).map fun config =>
        setTrue "pgbackrest_install" ++
        ([("pgbackrest_backup_hour", values.backupStartTime),
          ("pgbackrest_retention_full", values.backupRetention),
          ("pgbackrest_retention_full_type", some (.str "time"))] ++
        (config ++ backupKeys values "pgbackrest_s3_key" "pgbackrest_s3_key_secret"))
    else
      (parameterFields values.backupConfig fun c =>
        [("wal_g_auto_conf", some (.bool false)), ("wal_g_json", c)]).map fun config =>
        setTrue "wal_g_install" ++
        ([("wal_g_backup_hour", values.backupStartTime),
          ("wal_g_retention_full", values.backupRetention)] ++
        (config ++ backupKeys values "wal_g_aws_access_key_id" "wal_g_aws_secret_access_key"))
  else some [("pgbackrest_install", some (.bool false)),
    ("pgbackrest_auto_conf", some (.bool false))]

def synchronousFields (values : ClusterFormValues) : Fields :=
  if truthy values.synchronousStandbyModes then
    setTrue "synchronous_mode" ++
    (("synchronous_node_count", values.synchronousStandbyModes) ::
    (if values.isSynchronousModeStrict then setTrue "synchronous_mode_strict" else []))
  else []

def baseExtraVars (values : ClusterFormValues) : Fields :=
  [("environment_id", values.environment.map natural), ("description", text values.description)]

def getBaseClusterExtraVars (expert : Bool) (values : ClusterFormValues) : Option Fields :=
  if expert then
    (getExtensions values).bind fun extensions =>
    (backupFields values).bind fun backups =>
    (parameterFields values.postgresParameters fun c =>
      [("local_postgresql_parameters", c)]).bind fun postgres =>
    (parameterFields values.kernelParameters fun c =>
      setTrue "sysctl_set" ++ [("sysctl_conf", some (record [("postgres_cluster", c)]))]).map
      fun kernel =>
        baseExtraVars values ++ (databaseFields values ++
        ([("pgbouncer_install", some (.bool values.isConnectionPoolerEnabled)),
          ("netdata_install", some (.bool values.isNetdataMonitoring))] ++ (poolFields values ++
        ((if extensions.db = [] then [] else [("postgresql_extensions", some (.arr extensions.db))])
          ++ (extensions.extraVars ++ (backups ++ (postgres ++
        (kernel ++ synchronousFields values))))))))
  else some (baseExtraVars values)

def mapFormValuesToYamlEditor (expert : Bool) (values : ClusterFormValues) : Option Fields :=
  (getBaseClusterExtraVars expert values).bind fun base =>
    (if isLocal values then some (getLocalMachineExtraVars expert values none)
      else getCloudProviderExtraVars expert values).map fun rest => base ++ rest

/-- The extra vars of a request for local machines. -/
def requestExtraVars (expert : Bool) (values : ClusterFormValues) (secretId : Option ℕ) :
    Option Json :=
  (getBaseClusterExtraVars expert values).map fun base =>
    record (base ++ getLocalMachineExtraVars expert values secretId)

/-! ## Names that some fields do not assign -/

def Avoids (names : List String) (fields : Fields) : Prop := ∀ name ∈ names, name ∉ keys fields

section Avoids

variable {names : List String} {l m : Fields}

theorem Avoids.append (hl : Avoids names l) (hm : Avoids names m) : Avoids names (l ++ m) := by
  intro name hname hmem
  rw [keys, List.map_append, List.mem_append] at hmem
  exact hmem.elim (hl name hname) (hm name hname)

theorem Avoids.ite {c : Prop} [Decidable c] (hl : Avoids names l) (hm : Avoids names m) :
    Avoids names (if c then l else m) := by
  split
  · exact hl
  · exact hm

theorem avoids_nil : Avoids names [] := fun _ _ => List.not_mem_nil

theorem avoids_cons {f : String × Option Json} (hf : f.1 ∉ names) (hl : Avoids names l) :
    Avoids names (f :: l) := by
  intro name hname hmem
  rcases List.mem_cons.mp hmem with rfl | hmem
  · exact hf hname
  · exact hl name hname hmem

theorem avoids_of_keys (h : ∀ k ∈ keys l, k ∉ names) : Avoids names l :=
  fun name hname hmem => h name hmem hname

theorem Avoids.lookup (h : Avoids names l) {name : String} (hname : name ∈ names) :
    l.reverse.lookup name = none := by
  refine lookup_of_notMem fun hmem => h name hname ?_
  rwa [keys, List.map_reverse, List.mem_reverse] at hmem

end Avoids

/-! ## What throws -/

/-- Every line has something to split at. -/
def Separated (value : JsString) : Prop :=
  ∀ l ∈ value.splitOnP isBreak, ∃ c ∈ l, isSeparator c = true

/-- What a cloud provider needs. -/
structure CloudReady (values : ClusterFormValues) : Prop where
  provider : values.provider.isSome
  server : values.instanceType = some "custom" ∨ values.instanceConfig.isSome
  image : (values.regionConfig.bind RegionConfig.cloudImage).isSome

/-- What expert mode needs; the configuration of backups counts when they are used. -/
structure ExpertReady (values : ClusterFormValues) : Prop where
  extensions : values.extensions.isSome
  names : values.databasesBlockNames.isSome ∨
    ∀ entry ∈ values.extensions.getD [], chosen entry.2 = []
  backups : usesBackups values = true → ∀ t ∈ values.backupConfig, t ≠ [] → Separated t
  postgres : ∀ t ∈ values.postgresParameters, t ≠ [] → Separated t
  kernel : ∀ t ∈ values.kernelParameters, t ≠ [] → Separated t

structure Ready (expert : Bool) (values : ClusterFormValues) : Prop where
  cloud : isLocal values = false → CloudReady values
  expert : expert = true → ExpertReady values

variable {values : ClusterFormValues}

theorem isSome_mapM {α β : Type*} {f : α → Option β} {l : List α} :
    (l.mapM f).isSome ↔ ∀ a ∈ l, (f a).isSome := by
  induction l with
  | nil => simp
  | cons a l ih =>
    rw [List.mapM_cons, List.forall_mem_cons, ← ih]
    cases f a <;> cases l.mapM f <;> simp

theorem parameterFields_isSome {value : Option JsString} {fields : Option Json → Fields} :
    (parameterFields value fields).isSome ↔ ∀ t ∈ value, t ≠ [] → Separated t := by
  rcases value with - | - | ⟨c, t⟩
  · simp [parameterFields]
  · simp [parameterFields]
  · have hconvert : (convertModalParametersToArray (some (c :: t))).isSome ↔
        Separated (c :: t) := by
      rw [convertModalParametersToArray, if_neg (by simp), Option.isSome_map, isSome_mapM]
      exact forall₂_congr fun l _ => convertLine_isSome
    simpa [parameterFields] using hconvert

theorem backupFields_isSome : (backupFields values).isSome ↔
    (usesBackups values = true → ∀ t ∈ values.backupConfig, t ≠ [] → Separated t) := by
  rw [backupFields]
  split
  · next hb =>
    rw [forall_prop_of_true hb]
    split <;> rw [Option.isSome_map, parameterFields_isSome]
  · next hb => exact iff_of_true rfl fun h => absurd h hb

theorem foldlM_addExtension_isSome {names : Option (List (String × String))}
    {entries : List (String × Option Extension)} {acc : Extensions} :
    (entries.foldlM (addExtension names) acc).isSome ↔
      names.isSome ∨ ∀ entry ∈ entries, chosen entry.2 = [] := by
  induction entries generalizing acc with
  | nil => simp
  | cons entry entries ih =>
    rw [List.foldlM_cons, List.forall_mem_cons, addExtension]
    split
    · next hnone => simp [ih, hnone]
    · next hsome =>
      cases names with
      | none => simp [hsome]
      | some ns => simp [ih]

theorem getExtensions_isSome : (getExtensions values).isSome ↔ values.extensions.isSome ∧
    (values.databasesBlockNames.isSome ∨
      ∀ entry ∈ values.extensions.getD [], chosen entry.2 = []) := by
  rw [getExtensions]
  cases values.extensions with
  | none => simp
  | some entries => simp [foldlM_addExtension_isSome]

theorem isSome_bind_iff {α β : Type*} {o : Option α} {f : α → Option β} {P : Prop}
    (h : ∀ a, (f a).isSome ↔ P) : (o.bind f).isSome ↔ o.isSome ∧ P := by
  cases o with
  | none => simp
  | some a => simp [h a]

theorem getBaseClusterExtraVars_isSome {expert : Bool} :
    (getBaseClusterExtraVars expert values).isSome ↔ (expert = true → ExpertReady values) := by
  rw [getBaseClusterExtraVars]
  cases expert with
  | false => simp
  | true =>
    have hkernel {f} {g : Fields → Fields} :
        ((parameterFields values.kernelParameters f).map g).isSome ↔
          ∀ t ∈ values.kernelParameters, t ≠ [] → Separated t := by
      rw [Option.isSome_map, parameterFields_isSome]
    rw [if_pos rfl, isSome_bind_iff fun _ => isSome_bind_iff fun _ =>
      isSome_bind_iff fun _ => hkernel, getExtensions_isSome, backupFields_isSome,
      parameterFields_isSome, forall_prop_of_true rfl]
    constructor
    · rintro ⟨⟨hext, hnames⟩, hbackups, hpostgres, hkernel⟩
      exact ⟨hext, hnames, hbackups, hpostgres, hkernel⟩
    · rintro ⟨hext, hnames, hbackups, hpostgres, hkernel⟩
      exact ⟨⟨hext, hnames⟩, hbackups, hpostgres, hkernel⟩

theorem getCloudProviderExtraVars_isSome {expert : Bool} :
    (getCloudProviderExtraVars expert values).isSome ↔ CloudReady values := by
  have htype : (serverType values).isSome ↔
      values.instanceType = some "custom" ∨ values.instanceConfig.isSome := by
    rw [serverType]
    split
    · next hc => simp [hc]
    · next hc => simp [hc]
  have himage {f : RegionConfig → CloudImage → Fields} :
      (values.regionConfig.bind fun r => r.cloudImage.map (f r)).isSome ↔
        (values.regionConfig.bind RegionConfig.cloudImage).isSome := by
    cases values.regionConfig <;> simp
  rw [getCloudProviderExtraVars, isSome_bind_iff fun _ => isSome_bind_iff fun _ => himage, htype]
  constructor
  · rintro ⟨hprovider, hserver, himage⟩
    exact ⟨hprovider, hserver, himage⟩
  · rintro ⟨hprovider, hserver, himage⟩
    exact ⟨hprovider, hserver, himage⟩

/-- When the editor opens without an error. -/
theorem mapFormValuesToYamlEditor_isSome_iff (expert : Bool) (values : ClusterFormValues) :
    (mapFormValuesToYamlEditor expert values).isSome ↔ Ready expert values := by
  have hrest {f : Fields → Fields} :
      (Option.map f (if isLocal values then some (getLocalMachineExtraVars expert values none)
        else getCloudProviderExtraVars expert values)).isSome ↔
      (isLocal values = false → CloudReady values) := by
    rw [Option.isSome_map]
    cases isLocal values with
    | true => simp
    | false => simp [getCloudProviderExtraVars_isSome]
  rw [mapFormValuesToYamlEditor, isSome_bind_iff fun _ => hrest, getBaseClusterExtraVars_isSome]
  constructor
  · rintro ⟨hexpert, hcloud⟩
    exact ⟨hcloud, hexpert⟩
  · rintro ⟨hcloud, hexpert⟩
    exact ⟨hexpert, hcloud⟩

/-- A word that is typed as a parameter has no separator yet. -/
theorem editor_throws_on_word : ¬ ∀ edits : List Edit,
    (mapFormValuesToYamlEditor true (filledIn true true edits)).isSome := by
  intro h
  have hword := h [.provider ⟨some "local"⟩ none none none,
    .parameters { postgresParameters := some (js "port"), kernelParameters := some [] }]
  revert hword
  decide +kernel

end ConsoleFormExtraVars
