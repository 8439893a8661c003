import Autobase.ConsoleStatements
import Autobase.ConsoleLogEntity
import Autobase.JsonAscii
import Autobase.ObjectLiterals

/-! # POST /clusters

The handler reads the secret and the inventory, writes the cluster row, and then either
imports the hosts of an existing cluster or starts the container of a deployment. The repair
of the status is deferred only after the import branch. -/
namespace ConsolePostCluster

open ConsoleSchema ConsoleStatements ConsoleLogEntity JsonText JsonAscii

/-! ## Values -/

/-- A map holds one value a key. -/
abbrev VarMap := List (String × Json)

def setVar (key : String) (v : Json) : VarMap → VarMap
  | [] => [(key, v)]
  | (k, u) :: m => if k = key then (k, v) :: m else (k, u) :: setVar key v m

def mapOf (kvs : List (String × Json)) : VarMap := kvs.foldl (fun m kv => setVar kv.1 kv.2 m) []

theorem setVar_eq_assign (k : String) (v : Json) (m : VarMap) :
    setVar k v m = ObjectLiterals.assign k v m := by
  induction m with
  | nil => rfl
  | cons kv m ih => rw [setVar, ObjectLiterals.assign, ih]

theorem mapOf_eq_object (kvs : List (String × Json)) : mapOf kvs = ObjectLiterals.object kvs := by
  simp only [mapOf, setVar_eq_assign]
  rfl

/-- A string field of a struct after the members of an object. -/
def stringMember (name : String) (value : String) : List (String × Json) → Option String
  | [] => some value
  | (k, v) :: ms =>
    if foldName k = foldName name then
      match v with
      | .str s => stringMember name s ms
      | .null => stringMember name value ms
      | _ => none
    else stringMember name value ms

def stringField (v : Json) (name : String) : Option String :=
  match v with
  | .null => some ""
  | .obj ms => stringMember name "" ms
  | _ => none

/-- A struct of string fields; one field of another type is an error. -/
def unmarshalStrings (names : List String) (v : Json) : Option (List String) :=
  names.mapM (stringField v)

/-- One level of nested structs: a member whose key folds to a field is decoded into it. -/
def unmarshalMembers {α : Type} (field : String → Option (α → Json → Option α)) :
    α → List (String × Json) → Option α
  | a, [] => some a
  | a, (k, v) :: ms =>
    match field k with
    | none => unmarshalMembers field a ms
    | some f => (f a v).bind fun a' => unmarshalMembers field a' ms

def unmarshalStruct {α : Type} (field : String → Option (α → Json → Option α)) (a : α) :
    Json → Option α
  | .null => some a
  | .obj ms => unmarshalMembers field a ms
  | _ => none

def unmarshalMap (m : VarMap) : Json → Option VarMap
  | .null => some []
  | .obj kvs =>
    if fitMembers kvs then some (kvs.foldl (fun m kv => setVar kv.1 kv.2 m) m) else none
  | _ => none

structure InventoryJson where
  master : VarMap
  replica : VarMap

def named {α : Type} (names : List (String × (α → Json → Option α))) (key : String) :
    Option (α → Json → Option α) :=
  (names.find? fun n => decide (foldName n.1 = foldName key)).map Prod.snd

def hostsInto (set : InventoryJson → VarMap → InventoryJson) (get : InventoryJson → VarMap) :
    InventoryJson → Json → Option InventoryJson :=
  unmarshalStruct (named [("hosts", fun inv v => (unmarshalMap (get inv) v).map (set inv))])

def unmarshalInventory : Json → Option InventoryJson :=
  unmarshalStruct (named [("all",
    unmarshalStruct (named [("children",
      unmarshalStruct (named [
        ("master", hostsInto (fun inv m => { inv with master := m }) InventoryJson.master),
        ("replica", hostsInto (fun inv m => { inv with replica := m }) InventoryJson.replica)]))]))])
    ⟨[], []⟩

/-! ## Surroundings -/

inductive Group where
  | master | replica
  deriving DecidableEq

/-- The calls of the handler that may fail. -/
inductive Call where
  | getClusterByName
  | getSecret
  | getSecretVal
  | getProxySetting
  | createCluster
  | createServer (group : Group) (ip : String)
  | manageCluster
  | createOperation
  | repairStatus
  deriving DecidableEq

/-- A map is iterated in an arbitrary order. -/
structure MapOrder where
  order : VarMap → VarMap
  order_perm : ∀ m, (order m).Perm m

/-- What surrounds one request: the failing calls with the texts of their errors, the answer
of docker, the clock, the order of map iteration and two conversions of libraries. -/
structure Circumstances where
  pg : Postgres
  fails : Call → Bool
  errorText : Call → String
  unmarshalError : String
  docker : Option String
  now : ℕ
  cid : String
  iterate : MapOrder
  decodeBase64 : String → Option String
  parseFloat : String → Option ℤ

structure Body where
  projectID : ℤ
  environmentID : ℤ
  name : String
  description : String
  authInfo : Option ℤ
  existingCluster : Bool
  extraVars : Option Json
  envs : List String

/-! ## Secrets -/

inductive ParamLocation where
  | unknown | env | extraVars
  deriving DecidableEq

/-- A supported type of secrets: the fields of its value, the variables with the field each
one carries, and where the variables go. -/
structure SecretKind where
  fields : List String
  vars : List (String × ℕ)
  location : ParamLocation

def secretKinds : List (String × SecretKind) :=
  [("aws", ⟨["AWS_ACCESS_KEY_ID", "AWS_SECRET_ACCESS_KEY"],
      [("AWS_ACCESS_KEY_ID", 0), ("AWS_SECRET_ACCESS_KEY", 1)], .env⟩),
    ("gcp", ⟨["GCP_SERVICE_ACCOUNT_CONTENTS"], [("GCP_SERVICE_ACCOUNT_CONTENTS", 0)], .env⟩),
    ("azure", ⟨["AZURE_SUBSCRIPTION_ID", "AZURE_CLIENT_ID", "AZURE_SECRET", "AZURE_TENANT"],
      [("AZURE_SUBSCRIPTION_ID", 0), ("AZURE_CLIENT_ID", 1), ("AZURE_SECRET", 2),
        ("AZURE_TENANT", 3)], .env⟩),
    ("digitalocean", ⟨["DO_API_TOKEN"], [("DO_API_TOKEN", 0)], .env⟩),
    ("hetzner", ⟨["HCLOUD_API_TOKEN"], [("HCLOUD_API_TOKEN", 0)], .env⟩),
    ("ssh_key", ⟨["SSH_PRIVATE_KEY"], [("SSH_PRIVATE_KEY_CONTENT", 0)], .env⟩),
    ("password", ⟨["USERNAME", "PASSWORD"],
      [("ansible_user", 0), ("ansible_ssh_pass", 1), ("ansible_sudo_pass", 1)], .extraVars⟩)]

def SecretKind.envs (k : SecretKind) (values : List String) : List String :=
  k.vars.map fun v => v.1 ++ ("=" ++ values.getD v.2 "")

/-- The variables made of a stored value; a type that is not supported gives none. -/
def secretEnvs (type : String) (value : Json) : Option (List String × ParamLocation) :=
  match secretKinds.lookup type with
  | none => some ([], .unknown)
  | some k => (unmarshalStrings k.fields value).map fun values => (k.envs values, k.location)

def getSecretEnvs (C : Circumstances) (id : ℤ) (d : Db) :
    Except String (List String × ParamLocation) :=
  if C.fails .getSecret then .error (C.errorText .getSecret)
  else match getSecret id d with
    | none => .error (C.errorText .getSecret)
    | some secret =>
      if C.fails .getSecretVal then .error (C.errorText .getSecretVal)
      else match secretEnvs secret.secretType secret.secretValue with
        | none => .error C.unmarshalError
        | some r => .ok r

/-! ## Variables -/

/-- The texts before and after the first equals sign. -/
def splitAssignment : List Char → Option (List Char × List Char)
  | [] => none
  | c :: cs => if c = '=' then some ([], cs) else (splitAssignment cs).map fun p => (c :: p.1, p.2)

theorem splitAssignment_append {k v : List Char} (h : '=' ∉ k) :
    splitAssignment (k ++ '=' :: v) = some (k, v) := by
  induction k with
  | nil => simp [splitAssignment]
  | cons c k ih =>
    simp only [List.mem_cons, not_or] at h
    have hne : c ≠ '=' := fun he => h.1 he.symm
    simp [splitAssignment, hne, ih h.2]

def setAssignment (m : VarMap) (kv : String) : VarMap :=
  match splitAssignment kv.toList with
  | none => m
  | some (k, v) => setVar (String.ofList k) (.str (String.ofList v)) m

/-- The small letter of a character, as far as it is one of ASCII. -/
def toLowerRune (c : Char) : Char :=
  if 65 ≤ c.toNat ∧ c.toNat ≤ 90 then Char.ofNat (c.toNat + 32)
  else if c.toNat = 0x130 then 'i'
  else if c.toNat = 0x212a then 'k'
  else c

/-- The first assignment to the key, which is compared without case. -/
def getValFromVars (key : String) : List String → String
  | [] => ""
  | kv :: vars =>
    if ((key.toList.map toLowerRune) ++ ['=']).isPrefixOf (kv.toList.map toLowerRune) then
      match splitAssignment kv.toList with
      | some (_, v) => String.ofList v
      | none => getValFromVars key vars
    else getValFromVars key vars

def boolText (b : Bool) : String := if b then "true" else "false"

def marshalText (v : Json) : String := String.ofList (render compactLayout 0 (sortKeys v))

def getValFromExtraVars (m : VarMap) (key : String) : String :=
  match m.lookup key with
  | none => ""
  | some .null => ""
  | some (.str s) => s
  | some (.bool b) => boolText b
  | some v => marshalText v

/-- A number without fraction and exponent, clamped to 64 bits; any other one is no integer. -/
def atoi (x : Number) : ℤ :=
  if x.fraction.isSome || x.exponent.isSome then 0
  else if x.negative then max (-9223372036854775808) (-(x.mantissa : ℤ))
  else min 9223372036854775807 x.mantissa

def getIntValFromExtraVars (C : Circumstances) (m : VarMap) (key : String) : ℤ :=
  match m.lookup key with
  | some (.num x) => atoi x
  | some (.str s) => (C.parseFloat s).getD 0
  | _ => 0

/-! ## The handler -/

def ansibleLogDir : String := "/tmp/ansible"

def getAnsibleLogEnv (clusterName : String) : List String :=
  ["ANSIBLE_JSON_LOG_FILE=" ++ (ansibleLogDir ++ ("/" ++ (clusterName ++ ".json")))]

def proxySettingName : String := "proxy_env"

def getProxySetting (C : Circumstances) (d : Db) : Option Json :=
  if C.fails .getProxySetting then none
  else (getSettingByName proxySettingName d).map Setting.settingValue

/-- A body value that is no object counts for no variables. -/
def bodyVars (b : Body) : VarMap :=
  match b.extraVars with
  | some (.obj kvs) => mapOf kvs
  | _ => []

def allExtraVars (b : Body) (secret : List String × ParamLocation) (proxy : Option Json) : VarMap :=
  let m := if secret.2 = .extraVars then secret.1.foldl setAssignment (bodyVars b) else bodyVars b
  match proxy with
  | none => m
  | some v => setVar proxySettingName v m

def allEnvs (b : Body) (secret : List String × ParamLocation) : List String :=
  b.envs ++ ((if secret.2 = .env then secret.1 else []) ++ getAnsibleLogEnv b.name)

/-- The inventory variable, in base64 or plain, when it holds JSON of the right shape. -/
def readInventory (C : Circumstances) (envs : List String) : Option (Json × InventoryJson) :=
  let raw := getValFromVars "ANSIBLE_INVENTORY_JSON" envs
  if raw = "" then none
  else (parse ((C.decodeBase64 raw).getD raw).toList).bind fun v =>
    (unmarshalInventory v).map fun inv => (v, inv)

/-- What the handler computes before it writes. -/
structure Prepared where
  envs : List String
  extraVars : VarMap
  inventory : Option (Json × InventoryJson)
  serverCount : ℤ

def hostCount (inv : InventoryJson) : ℤ := inv.master.length + inv.replica.length

def prepare (C : Circumstances) (b : Body) (secret : List String × ParamLocation)
    (proxy : Option Json) : Prepared :=
  let envs := allEnvs b secret
  let extraVars := allExtraVars b secret proxy
  if getValFromExtraVars extraVars "cloud_provider" = "" then
    let inventory := readInventory C envs
    ⟨envs, extraVars, inventory, (inventory.map fun i => hostCount i.2).getD 0⟩
  else ⟨envs, extraVars, none, getIntValFromExtraVars C extraVars "server_count"⟩

theorem prepare_envs (C : Circumstances) (b : Body) (secret : List String × ParamLocation)
    (proxy : Option Json) : (prepare C b secret proxy).envs = allEnvs b secret := by
  simp only [prepare]
  split <;> rfl

def createReq (C : Circumstances) (b : Body) (p : Prepared) : CreateClusterReq where
  projectID := b.projectID
  environmentID := b.environmentID
  name := b.name
  description := b.description
  secretID := b.authInfo
  extraVars := .obj p.extraVars
  location := getValFromExtraVars p.extraVars "server_location"
  serverCount := p.serverCount
  postgreSqlVersion := getIntValFromExtraVars C p.extraVars "postgresql_version"
  status := if b.existingCluster then "ready" else "deploying"
  inventory := p.inventory.map Prod.fst

inductive Response where
  | ok (clusterID : ℤ) (operationID : Option ℤ)
  | badRequest (message : String)
  deriving DecidableEq

def Response.isError : Response → Bool
  | .ok _ _ => false
  | .badRequest _ => true

/-- The tables after the request, its answer, the identifier of the created row and the
container that was started, with its variables. -/
structure Answer where
  db : Db
  response : Response
  created : Option ℤ
  container : Option (String × List String)

def refuse (d : Db) (message : String) : Answer := ⟨d, .badRequest message, none, none⟩

abbrev Host := Group × String × Json

def hostsOf (C : Circumstances) (inv : InventoryJson) : List Host :=
  (C.iterate.order inv.master).map (fun h => (.master, h.1, h.2)) ++
    (C.iterate.order inv.replica).map fun h => (.replica, h.1, h.2)

def stringAt (m : List (String × Json)) (key : String) : String :=
  match (mapOf m).lookup key with
  | some (.str s) => s
  | _ => ""

def hostReq (clusterID : ℤ) (ip : String) (m : List (String × Json)) : CreateServerReq :=
  ⟨clusterID, stringAt m "hostname", some (stringAt m "server_location"), ip⟩

/-- The inserts of the import; hosts without a map are passed over. The call that failed is
returned. -/
def insertHosts (C : Circumstances) (clusterID : ℤ) : List Host → Db → Db × Option Call
  | [], d => (d, none)
  | (g, ip, .obj m) :: hosts, d =>
    if C.fails (.createServer g ip) then (d, some (.createServer g ip))
    else match createServer C.pg (hostReq clusterID ip m) d with
      | none => (d, some (.createServer g ip))
      | some (_, d') => insertHosts C clusterID hosts d'
  | _ :: hosts, d => insertHosts C clusterID hosts d

def importCluster (C : Circumstances) (p : Prepared) (id : ℤ) (d : Db) : Answer :=
  let hosts := (p.inventory.map fun i => hostsOf C i.2).getD []
  match insertHosts C id hosts d with
  | (d', none) => ⟨d', .ok id none, some id, none⟩
  | (d', some call) => ⟨d', .badRequest (C.errorText call), some id, none⟩

/-- The deferred repair. -/
def repairStatus (C : Circumstances) (id : ℤ) (d : Db) : Db :=
  attempt (C.fails .repairStatus)
    (fun d => (updateCluster C.pg ⟨id, none, some clusterStatusFailed, none⟩ d).map Prod.snd) d

def deployReq (C : Circumstances) (b : Body) (id : ℤ) (code : String) : CreateOperationReq :=
  ⟨b.projectID, id, code, operationTypeDeploy, C.cid⟩

def startDeployment (C : Circumstances) (b : Body) (p : Prepared) (id : ℤ) (d : Db) : Answer :=
  match if C.fails .manageCluster then none else C.docker with
  | none => ⟨repairStatus C id d, .badRequest (C.errorText .manageCluster), some id, none⟩
  | some code =>
    match if C.fails .createOperation then none
      else createOperation C.pg (deployReq C b id code) C.now d with
    | none => ⟨repairStatus C id d, .badRequest (C.errorText .createOperation), some id,
        some (code, p.envs)⟩
    | some (o, d') => ⟨d', .ok id (some o.id), some id, some (code, p.envs)⟩

def writeCluster (C : Circumstances) (b : Body) (p : Prepared) (d : Db) : Answer :=
  match if C.fails .createCluster then none else createCluster C.pg (createReq C b p) C.now d with
  | none => refuse d (C.errorText .createCluster)
  | some (c, d') =>
    if b.existingCluster then importCluster C p c.clusterID d'
    else startDeployment C b p c.clusterID d'

def secretOf (C : Circumstances) (b : Body) (d : Db) :
    Except String (List String × ParamLocation) :=
  match b.authInfo with
  | none => .ok ([], .unknown)
  | some id => getSecretEnvs C id d

def handle (C : Circumstances) (b : Body) (d : Db) : Answer :=
  if !C.fails .getClusterByName && (getClusterByName b.name d).isSome then
    refuse d ("cluster " ++ (b.name ++ " already exists"))
  else match secretOf C b d with
    | .error e => refuse d ("failed to get secret: " ++ e)
    | .ok secret => writeCluster C b (prepare C b secret (getProxySetting C d)) d

/-! ## GET /clusters/{id} -/

structure ClusterInfoInstance where
  id : ℤ
  ip : Inet
  lag : Option ℤ
  name : String
  pendingRestart : Option Bool
  role : Option String
  status : Option String
  tags : Option Json
  timeline : Option ℤ

def instanceOf (s : Server) : ClusterInfoInstance :=
  ⟨s.serverID, s.ipAddress, s.lag, s.serverName, s.pendingRestart, s.serverRole, s.serverStatus,
    s.tags, s.timeline⟩

structure ClusterInfo where
  id : ℤ
  name : String
  description : String
  creationTime : ℕ
  clusterLocation : String
  connectionInfo : Option Json
  environment : String
  projectName : String
  postgresVersion : ℤ
  status : String
  extraVars : String
  inventory : String
  servers : List ClusterInfoInstance

def clusterToSwagger (pg : Postgres) (c : Cluster) (servers : List Server)
    (environment project : String) : ClusterInfo where
  id := c.clusterID
  name := c.clusterName
  description := c.clusterDescription
  creationTime := c.createdAt
  clusterLocation := c.clusterLocation.getD ""
  connectionInfo := c.connectionInfo
  environment := environment
  projectName := project
  postgresVersion := c.postgresVersion
  status := c.clusterStatus
  extraVars := (c.extraVars.map pg.jsonbOut).getD ""
  inventory := (c.inventory.map pg.jsonbOut).getD ""
  servers := servers.map instanceOf

/-- A missing row is the error of the query. -/
def getClusterInfo (pg : Postgres) (id : ℤ) (d : Db) : Option ClusterInfo :=
  (getCluster id d).bind fun c =>
    (getProject c.projectID d).bind fun project =>
      (getEnvironment c.environmentID d).map fun environment =>
        clusterToSwagger pg c (getClusterServers c.clusterID d) environment.environmentName
          project.projectName

/-- Nothing fails. -/
def smooth : Circumstances where
  pg := { acceptAll with jsonbOut := marshalText }
  fails := fun _ => false
  errorText := fun _ => "error"
  unmarshalError := "error"
  docker := some "0123456789ab"
  now := 0
  cid := "cid"
  iterate := ⟨id, fun m => List.Perm.refl m⟩
  decodeBase64 := fun _ => none
  parseFloat := fun _ => none

end ConsolePostCluster
