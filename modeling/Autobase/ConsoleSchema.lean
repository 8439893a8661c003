import Autobase.JsonText
import Autobase.RowTables
import Mathlib.Data.List.Perm.Subperm

/-! # The console database

The tables of the migrations with the columns the service reads. A statement computes new
tables and is committed only when every constraint holds, so a `Db` satisfies them all.
Numbers from a sequence are never issued twice. -/
namespace ConsoleSchema

open JsonText RowTables

/-- An address in the canonical text of the `inet` type. -/
abbrev Inet := String

structure Project where
  projectID : ℤ
  projectName : String

structure Environment where
  environmentID : ℤ
  environmentName : String

structure Setting where
  settingName : String
  settingValue : Json

/-- `secretValue` is the plaintext; the stored bytes are its encryption. -/
structure Secret where
  secretID : ℤ
  projectID : ℤ
  secretType : String
  secretName : String
  secretValue : Json

structure Cluster where
  clusterID : ℤ
  projectID : ℤ
  environmentID : ℤ
  secretID : Option ℤ
  clusterName : String
  clusterStatus : String
  clusterDescription : String
  clusterLocation : Option String
  connectionInfo : Option Json
  extraVars : Option Json
  inventory : Option Json
  serverCount : ℤ
  postgresVersion : ℤ
  createdAt : ℕ
  deletedAt : Option ℕ
  flags : ℕ

structure Server where
  serverID : ℤ
  clusterID : ℤ
  serverName : String
  serverLocation : Option String
  serverRole : Option String
  serverStatus : Option String
  ipAddress : Inet
  timeline : Option ℤ
  lag : Option ℤ
  tags : Option Json
  pendingRestart : Option Bool

structure Operation where
  id : ℤ
  projectID : ℤ
  clusterID : ℤ
  dockerCode : String
  cid : String
  operationType : String
  operationStatus : String
  operationLog : Option String
  createdAt : ℕ

def operationStatusInProgress : String := "in_progress"
def operationStatusSuccess : String := "success"
def operationStatusFailed : String := "failed"
def operationTypeDeploy : String := "deploy"
def clusterStatusFailed : String := "failed"
def clusterStatusReady : String := "ready"

/-- The values the CHECK constraint on `operations.operation_status` admits. -/
def operationStatuses : List String :=
  [operationStatusInProgress, operationStatusSuccess, operationStatusFailed]

structure Tables where
  projects : List Project
  environments : List Environment
  settings : List Setting
  secrets : List Secret
  clusters : List Cluster
  servers : List Server
  operations : List Operation
  nextClusterID : ℤ
  nextServerID : ℤ
  nextOperationID : ℤ

/-- The columns of the unique index on servers. -/
def Server.key (s : Server) : ℤ × Inet := (s.clusterID, s.ipAddress)

structure Constraints (t : Tables) : Prop where
  projects_pkey : (t.projects.map Project.projectID).Nodup
  environments_pkey : (t.environments.map Environment.environmentID).Nodup
  settings_name_key : (t.settings.map Setting.settingName).Nodup
  secrets_pkey : (t.secrets.map Secret.secretID).Nodup
  clusters_pkey : (t.clusters.map Cluster.clusterID).Nodup
  clusters_name_key : (t.clusters.map Cluster.clusterName).Nodup
  clusters_issued : ∀ c ∈ t.clusters, c.clusterID < t.nextClusterID
  clusters_project_fkey : ∀ c ∈ t.clusters, c.projectID ∈ t.projects.map Project.projectID
  clusters_environment_fkey :
    ∀ c ∈ t.clusters, c.environmentID ∈ t.environments.map Environment.environmentID
  clusters_secret_fkey :
    ∀ c ∈ t.clusters, ∀ i ∈ c.secretID, i ∈ t.secrets.map Secret.secretID
  servers_pkey : (t.servers.map Server.serverID).Nodup
  servers_issued : ∀ s ∈ t.servers, s.serverID < t.nextServerID
  servers_address_idx : (t.servers.map Server.key).Nodup
  servers_cluster_fkey : ∀ s ∈ t.servers, s.clusterID ∈ t.clusters.map Cluster.clusterID
  operations_pkey : (t.operations.map Operation.id).Nodup
  operations_issued : ∀ o ∈ t.operations, o.id < t.nextOperationID
  operations_cluster_fkey :
    ∀ o ∈ t.operations, o.clusterID ∈ t.clusters.map Cluster.clusterID
  operations_project_fkey :
    ∀ o ∈ t.operations, o.projectID ∈ t.projects.map Project.projectID
  operations_docker_code : ∀ o ∈ t.operations, o.dockerCode.length ≤ 80
  operations_status_check : ∀ o ∈ t.operations, o.operationStatus ∈ operationStatuses

theorem constraints_iff (t : Tables) : Constraints t ↔
    ((t.projects.map Project.projectID).Nodup ∧
      (t.environments.map Environment.environmentID).Nodup ∧
      (t.settings.map Setting.settingName).Nodup ∧ (t.secrets.map Secret.secretID).Nodup) ∧
    ((t.clusters.map Cluster.clusterID).Nodup ∧ (t.clusters.map Cluster.clusterName).Nodup ∧
      (∀ c ∈ t.clusters, c.clusterID < t.nextClusterID) ∧
      (∀ c ∈ t.clusters, c.projectID ∈ t.projects.map Project.projectID) ∧
      (∀ c ∈ t.clusters, c.environmentID ∈ t.environments.map Environment.environmentID) ∧
      (∀ c ∈ t.clusters, ∀ i ∈ c.secretID, i ∈ t.secrets.map Secret.secretID)) ∧
    ((t.servers.map Server.serverID).Nodup ∧ (∀ s ∈ t.servers, s.serverID < t.nextServerID) ∧
      (t.servers.map Server.key).Nodup ∧
      (∀ s ∈ t.servers, s.clusterID ∈ t.clusters.map Cluster.clusterID)) ∧
    ((t.operations.map Operation.id).Nodup ∧ (∀ o ∈ t.operations, o.id < t.nextOperationID) ∧
      (∀ o ∈ t.operations, o.clusterID ∈ t.clusters.map Cluster.clusterID) ∧
      (∀ o ∈ t.operations, o.projectID ∈ t.projects.map Project.projectID) ∧
      (∀ o ∈ t.operations, o.dockerCode.length ≤ 80) ∧
      (∀ o ∈ t.operations, o.operationStatus ∈ operationStatuses)) := by
  constructor
  · rintro ⟨a, b, c, d, e, f, g, h, i, j, k, l, m, n, o, p, q, r, s, t⟩
    exact ⟨⟨a, b, c, d⟩, ⟨e, f, g, h, i, j⟩, ⟨k, l, m, n⟩, ⟨o, p, q, r, s, t⟩⟩
  · rintro ⟨⟨a, b, c, d⟩, ⟨e, f, g, h, i, j⟩, ⟨k, l, m, n⟩, ⟨o, p, q, r, s, t⟩⟩
    exact ⟨a, b, c, d, e, f, g, h, i, j, k, l, m, n, o, p, q, r, s, t⟩

instance (t : Tables) : Decidable (Constraints t) := decidable_of_iff' _ (constraints_iff t)

structure Db extends Tables where
  ok : Constraints toTables

/-- A violated constraint makes the statement fail and leaves the tables as they were. -/
def commit (t : Tables) : Option Db := if h : Constraints t then some ⟨t, h⟩ else none

theorem commit_eq_some {t : Tables} {d : Db} : commit t = some d ↔ d.toTables = t := by
  constructor
  · intro h
    by_cases hc : Constraints t
    · simp only [commit, hc, dite_true, Option.some.injEq] at h
      exact h ▸ rfl
    · simp [commit, hc] at h
  · rintro rfl
    simp [commit, d.ok]

theorem commit_isSome {t : Tables} : (commit t).isSome ↔ Constraints t := by
  by_cases hc : Constraints t <;> simp [commit, hc]

/-- What PostgreSQL accepts and prints, as far as the service depends on it. -/
structure Postgres where
  inetIn : String → Option Inet
  jsonbIn : Json → Bool
  jsonbOut : Json → String
  timestampSuffix : ℕ → String
  uuidIn : String → Bool

/-- A server without restrictions, for examples. -/
def acceptAll : Postgres where
  inetIn := some
  jsonbIn := fun _ => true
  jsonbOut := fun _ => ""
  timestampSuffix := fun _ => "20250101000000"
  uuidIn := fun _ => true

/-- No text value holds a zero byte. -/
def textIn (s : String) : Bool := s.toList.all fun c => c.toNat ≠ 0

def int4In (n : ℤ) : Bool := decide (-2147483648 ≤ n ∧ n ≤ 2147483647)

/-- The trigger function. `new` is the cluster_id of the NEW row and is absent where NEW is
null: no row equals null, so a deletion updates no cluster. -/
def updateServerCount (new : Option ℤ) (t : Tables) : Tables :=
  { t with
    clusters := updateWhere (fun c => decide (new = some c.clusterID))
      (fun c => { c with serverCount := t.servers.countP fun s => decide (new = some s.clusterID) })
      t.clusters }

/-- The rows the migrations leave behind. -/
def migrated : Db where
  projects := [⟨1, "default"⟩]
  environments := [⟨1, "production"⟩, ⟨2, "staging"⟩, ⟨3, "test"⟩, ⟨4, "dev"⟩, ⟨5, "benchmarking"⟩]
  settings := []
  secrets := []
  clusters := []
  servers := []
  operations := []
  nextClusterID := 1
  nextServerID := 1
  nextOperationID := 1
  ok := by decide

@[simp] theorem updateServerCount_none (t : Tables) : updateServerCount none t = t := by
  simp [updateServerCount, updateWhere_eq_self]

/-! ## Queries -/

def getProject (id : ℤ) (d : Db) : Option Project :=
  d.projects.find? fun p => decide (p.projectID = id)

def getEnvironment (id : ℤ) (d : Db) : Option Environment :=
  d.environments.find? fun e => decide (e.environmentID = id)

def getSettingByName (name : String) (d : Db) : Option Setting :=
  d.settings.find? fun s => decide (s.settingName = name)

def getSecret (id : ℤ) (d : Db) : Option Secret :=
  d.secrets.find? fun s => decide (s.secretID = id)

def getCluster (id : ℤ) (d : Db) : Option Cluster :=
  d.clusters.find? fun c => decide (c.clusterID = id)

def getClusterByName (name : String) (d : Db) : Option Cluster :=
  d.clusters.find? fun c => decide (c.clusterName = name)

def getClusterServers (id : ℤ) (d : Db) : List Server :=
  d.servers.filter fun s => decide (s.clusterID = id)

def getOperation (id : ℤ) (d : Db) : Option Operation :=
  d.operations.find? fun o => decide (o.id = id)

def getInProgressOperations (since : ℕ) (d : Db) : List Operation :=
  d.operations.filter fun o =>
    decide (o.operationStatus = operationStatusInProgress ∧ since < o.createdAt)

/-! ## Clusters -/

structure CreateClusterReq where
  projectID : ℤ
  environmentID : ℤ
  name : String
  description : String
  secretID : Option ℤ
  extraVars : Json
  location : String
  serverCount : ℤ
  postgreSqlVersion : ℤ
  status : String
  inventory : Option Json

def CreateClusterReq.row (req : CreateClusterReq) (id : ℤ) (now : ℕ) : Cluster where
  clusterID := id
  projectID := req.projectID
  environmentID := req.environmentID
  secretID := req.secretID
  clusterName := req.name
  clusterStatus := req.status
  clusterDescription := req.description
  clusterLocation := some req.location
  connectionInfo := none
  extraVars := some req.extraVars
  inventory := req.inventory
  serverCount := req.serverCount
  postgresVersion := req.postgreSqlVersion
  createdAt := now
  deletedAt := none
  flags := 0

/-- The values fit their columns. -/
def CreateClusterReq.accepted (pg : Postgres) (req : CreateClusterReq) : Bool :=
  textIn req.name && textIn req.description && textIn req.location && textIn req.status &&
    pg.jsonbIn req.extraVars && req.inventory.all pg.jsonbIn && int4In req.serverCount &&
    int4In req.postgreSqlVersion

def createCluster (pg : Postgres) (req : CreateClusterReq) (now : ℕ) (d : Db) :
    Option (Cluster × Db) :=
  if req.accepted pg then
    let c := req.row d.nextClusterID now
    (commit { d.toTables with
      clusters := d.clusters ++ [c]
      nextClusterID := d.nextClusterID + 1 }).map fun d' => (c, d')
  else none

structure UpdateClusterReq where
  id : ℤ
  connectionInfo : Option Json
  status : Option String
  flags : Option ℕ

def UpdateClusterReq.apply (req : UpdateClusterReq) (info : Option Json) (c : Cluster) :
    Cluster :=
  { c with
    connectionInfo := info.or c.connectionInfo
    clusterStatus := req.status.getD c.clusterStatus
    flags := req.flags.getD c.flags }

/-- A string is passed on as the text of a JSON value, any other value is marshalled. -/
def jsonbArgument : Json → Option Json
  | .str s => parse s.toList
  | v => some v

/-- The connection info as the column takes it; the outer option is the failure. -/
def UpdateClusterReq.storedInfo (pg : Postgres) (req : UpdateClusterReq) : Option (Option Json) :=
  match req.connectionInfo with
  | none => some none
  | some v => ((jsonbArgument v).filter pg.jsonbIn).map some

def updateCluster (pg : Postgres) (req : UpdateClusterReq) (d : Db) : Option (Cluster × Db) :=
  (req.storedInfo pg).bind fun info =>
    if req.status.all textIn then
      (commit { d.toTables with
        clusters := updateWhere (fun c => decide (c.clusterID = req.id)) (req.apply info)
          d.clusters }).bind fun d' => (getCluster req.id d').map fun c => (c, d')
    else none

/-- The deleted cluster loses its secret and gets a name that ends in the time of deletion. -/
def softDeleted (pg : Postgres) (now : ℕ) (c : Cluster) : Cluster :=
  { c with
    deletedAt := some now
    secretID := none
    clusterName := c.clusterName ++ ("_deleted_" ++ pg.timestampSuffix now) }

def deleteClusterSoft (pg : Postgres) (id : ℤ) (now : ℕ) (d : Db) : Option Db :=
  commit { d.toTables with
    clusters := updateWhere (fun c => decide (c.clusterID = id)) (softDeleted pg now) d.clusters }

/-! ## Servers -/

structure CreateServerReq where
  clusterID : ℤ
  serverName : String
  serverLocation : Option String
  ipAddress : String

def createServer (pg : Postgres) (req : CreateServerReq) (d : Db) : Option (Server × Db) :=
  (pg.inetIn req.ipAddress).bind fun ip =>
    if textIn req.serverName && req.serverLocation.all textIn then
      let s : Server :=
        ⟨d.nextServerID, req.clusterID, req.serverName, req.serverLocation, some "N/A",
          some "N/A", ip, none, none, none, some false⟩
      (commit (updateServerCount (some req.clusterID) { d.toTables with
        servers := d.servers ++ [s]
        nextServerID := d.nextServerID + 1 })).map fun d' => (s, d')
    else none

structure UpdateServerReq where
  clusterID : ℤ
  ipAddress : String
  name : String
  role : Option String
  status : Option String
  timeline : Option ℤ
  lag : Option ℤ
  tags : Option Json
  pendingRestart : Option Bool

def UpdateServerReq.row (req : UpdateServerReq) (id : ℤ) (ip : Inet) : Server :=
  ⟨id, req.clusterID, req.name, none, req.role, req.status, ip, req.timeline, req.lag, req.tags,
    req.pendingRestart⟩

/-- The `on conflict (cluster_id, ip_address) do update` branch. -/
def UpdateServerReq.apply (req : UpdateServerReq) (s : Server) : Server :=
  { s with
    serverName := if req.name = "" then s.serverName else req.name
    serverRole := req.role.or s.serverRole
    serverStatus := req.status.or s.serverStatus
    timeline := req.timeline.or s.timeline
    lag := req.lag
    tags := req.tags.or s.tags
    pendingRestart := req.pendingRestart.or s.pendingRestart }

def UpdateServerReq.accepted (pg : Postgres) (req : UpdateServerReq) : Bool :=
  textIn req.name && req.role.all textIn && req.status.all textIn && req.tags.all pg.jsonbIn

def updateServer (pg : Postgres) (req : UpdateServerReq) (d : Db) : Option Db :=
  (pg.inetIn req.ipAddress).bind fun ip =>
    if req.accepted pg then
      let hit := fun s : Server => decide (s.key = (req.clusterID, ip))
      let servers :=
        if d.servers.any hit then updateWhere hit req.apply d.servers
        else d.servers ++ [req.row d.nextServerID ip]
      commit (updateServerCount (some req.clusterID) { d.toTables with
        servers := servers
        nextServerID := d.nextServerID + 1 })
    else none

def Server.reset (s : Server) : Server :=
  { s with
    serverRole := some "N/A"
    serverStatus := some "N/A"
    timeline := none
    lag := none
    tags := none }

/-- The statement returns the updated row and reports an error when there is none. -/
def resetServer (pg : Postgres) (clusterID : ℤ) (ipAddress : String) (d : Db) : Option Db :=
  (pg.inetIn ipAddress).bind fun ip =>
    let hit := fun s : Server => decide (s.key = (clusterID, ip))
    if d.servers.any hit then
      commit (updateServerCount (some clusterID) { d.toTables with
        servers := updateWhere hit Server.reset d.servers })
    else none

/-- The row trigger of a deletion sees no NEW row. -/
def deleteServers (p : Server → Bool) (d : Db) : Option Db :=
  commit (updateServerCount none { d.toTables with servers := deleteWhere p d.servers })

def deleteServer (id : ℤ) (d : Db) : Option Db :=
  deleteServers (fun s => decide (s.serverID = id)) d

/-! ## The three statements of DeleteCluster -/

def deleteClusterOperations (id : ℤ) (d : Db) : Option Db :=
  commit { d.toTables with
    operations := deleteWhere (fun o => decide (o.clusterID = id)) d.operations }

def deleteClusterServers (id : ℤ) (d : Db) : Option Db :=
  deleteServers (fun s => decide (s.clusterID = id)) d

def deleteClusterRow (id : ℤ) (d : Db) : Option Db :=
  commit { d.toTables with
    clusters := deleteWhere (fun c => decide (c.clusterID = id)) d.clusters }

/-! ## Operations -/

structure CreateOperationReq where
  projectID : ℤ
  clusterID : ℤ
  dockerCode : String
  type : String
  cid : String

def CreateOperationReq.row (req : CreateOperationReq) (id : ℤ) (now : ℕ) : Operation :=
  ⟨id, req.projectID, req.clusterID, req.dockerCode, req.cid, req.type, operationStatusInProgress,
    none, now⟩

def createOperation (pg : Postgres) (req : CreateOperationReq) (now : ℕ) (d : Db) :
    Option (Operation × Db) :=
  if textIn req.dockerCode && textIn req.type && pg.uuidIn req.cid then
    let o := req.row d.nextOperationID now
    (commit { d.toTables with
      operations := d.operations ++ [o]
      nextOperationID := d.nextOperationID + 1 }).map fun d' => (o, d')
  else none

structure UpdateOperationReq where
  id : ℤ
  status : Option String
  logs : Option String

/-- `concat` takes a null log for the empty string. -/
def UpdateOperationReq.apply (req : UpdateOperationReq) (o : Operation) : Operation :=
  { o with
    operationStatus := req.status.getD o.operationStatus
    operationLog := match req.logs with
      | none => o.operationLog
      | some l => some (o.operationLog.getD "" ++ ("\n" ++ l)) }

def updateOperation (req : UpdateOperationReq) (d : Db) : Option Db :=
  let hit := fun o : Operation => decide (o.id = req.id)
  if req.status.all textIn && req.logs.all textIn && d.operations.any hit then
    commit { d.toTables with operations := updateWhere hit req.apply d.operations }
  else none

def deployRequest : CreateClusterReq :=
  ⟨1, 1, "postgres-cluster-01", "", none, .obj [], "", 2, 17, "deploying", none⟩

def deployOperation : Operation :=
  ⟨1, 1, 1, "0123456789ab", "cid", operationTypeDeploy, operationStatusInProgress, none, 1⟩

/-- One deployment in progress. -/
def deploying : Db where
  toTables := { migrated.toTables with
    clusters := [deployRequest.row 1 0]
    operations := [deployOperation]
    nextClusterID := 2
    nextOperationID := 2 }
  ok := by decide

end ConsoleSchema
