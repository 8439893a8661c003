import Autobase.ConsoleParameters
import Autobase.JsonText
import Autobase.TransitionRuns

/-! # The form of a new cluster

The values of the form by the blocks that show them, the values it opens with, what a user may
change, and the schema that has to accept a form of local machines. A field that is not set is
missing; a checkbox that was never touched counts as unchecked. -/
namespace ConsoleClusterForm

open ConsoleParameters ClassPatterns JsonText

/-! ## Values -/

structure CloudImage where
  image : Option (List (String × Json))

structure RegionConfig where
  code : Option String
  cloudImage : Option CloudImage

structure InstanceConfig where
  code : Option String

structure Provider where
  code : Option String

structure ClusterCloudProviderFormValues where
  regionConfig : Option RegionConfig := none
  instanceType : Option String := none
  instanceConfig : Option InstanceConfig := none
  serverType : Option String := none
  instancesAmount : Option Json := none
  storageAmount : Option Json := none
  fileSystemType : Option String := none
  volumeType : Option String := none
  sshPublicKey : Option String := none
  serverNetwork : Option String := none

structure DatabaseServer where
  databaseServerHostname : Option String := none
  databaseServerIpAddress : Option String := none
  databaseServerLocation : Option String := none
  databaseServerIsPostgreSQLExist : Option Bool := none

structure DatabaseServerBlockValues where
  databaseServerExistingCluster : Bool := false
  databaseServers : Option (List DatabaseServer) := none

structure AuthenticationFormValues where
  authenticationMethod : Option String := none
  isUseDefinedSecret : Bool := false
  secretId : Option String := none
  authenticationSaveToConsole : Bool := false
  secretKeyName : Option String := none
  username : Option String := none
  password : Option String := none
  sshPrivateKey : Option String := none

structure DcsDatabase where
  dcsDatabaseHostname : Option String := none
  dcsDatabaseIpAddress : Option String := none
  dcsDatabasePort : Option String := none

structure DcsBlockFormValues where
  type : Option String := none
  isDeployNewCluster : Bool := false
  isDeployToDbServers : Option Bool := none
  dcsDatabases : Option (List DcsDatabase) := none

structure LoadBalancerDatabase where
  loadBalancerDatabasesHostname : Option String := none
  loadBalancerDatabasesIpAddress : Option String := none

structure LoadBalancersBlockValues where
  isHaproxyEnabled : Bool := false
  isDeployToDatabaseServers : Bool := false
  loadBalancerDatabases : Option (List LoadBalancerDatabase) := none

structure DatabasesBlockSingleValue where
  databasesBlockDatabaseName : Option String := none
  databasesBlockUsername : Option String := none
  databasesBlockUserPassword : Option String := none
  databasesBlockEncoding : Option String := none
  databasesBlockLocale : Option String := none

structure DatabasesBlockValues where
  databasesBlock : Option (List DatabasesBlockSingleValue) := none
  databasesBlockNames : Option (List (String × String)) := none

structure Extension where
  db : Option (List String)
  isThirdParty : Bool

structure ExtensionsBlockValues where
  extensions : Option (List (String × Option Extension)) := none

structure ConnectionPool where
  poolName : Option String := none
  poolSize : Option Json := none
  poolMode : Option String := none

structure ConnectionPoolBlockValues where
  isConnectionPoolerEnabled : Bool := false
  pools : Option (List ConnectionPool) := none

structure BackupsBlockValues where
  isBackupsEnabled : Bool := false
  backupMethod : Option String := none
  backupStartTime : Option Json := none
  backupRetention : Option Json := none
  backupConfig : Option JsString := none
  backupAccessKey : Option String := none
  backupSecretKey : Option String := none

structure ParametersBlockValues where
  postgresParameters : Option JsString := none
  kernelParameters : Option JsString := none

structure AdditionalSettingsBlockValues where
  synchronousStandbyModes : Option Json := none
  isSynchronousModeStrict : Bool := false
  isDbPublicAccess : Bool := false
  isCloudLoadBalancer : Bool := false
  isNetdataMonitoring : Bool := false
  isSpotInstances : Bool := false

/-- What every form asks for. -/
structure CommonFormValues where
  environment : Option ℕ := none
  clusterName : Option String := none
  description : Option String := none
  postgresVersion : Option ℕ := none

structure ClusterFormValues extends CommonFormValues, ClusterCloudProviderFormValues,
    DatabaseServerBlockValues, AuthenticationFormValues, DcsBlockFormValues,
    LoadBalancersBlockValues, DatabasesBlockValues, ExtensionsBlockValues,
    ConnectionPoolBlockValues, BackupsBlockValues, ParametersBlockValues,
    AdditionalSettingsBlockValues where
  provider : Option Provider := none
  clusterVIPAddress : Option String := none
  dataDirectory : Option String := none

/-- `values.provider?.code === PROVIDERS.LOCAL` -/
def isLocal (values : ClusterFormValues) : Bool :=
  decide ((values.provider.bind Provider.code) = some "local")

def natural (n : ℕ) : Json := .num (Number.ofNat n)

/-! ## Defaults

They are made once, in the mode in which the page was loaded. -/

def cloudClusterDefaultValues (expert : Bool) : ClusterCloudProviderFormValues where
  instancesAmount := some (natural 3)
  instanceType := some "small"
  storageAmount := some (natural 100)
  serverType := if expert then some "" else none
  serverNetwork := if expert then some "" else none
  fileSystemType := if expert then some "ext4" else none

/-- Only expert mode sets anything about the store of the configuration. -/
def dcsDefaultValues (expert : Bool) : DcsBlockFormValues :=
  if expert then
    { type := some "etcd"
      isDeployNewCluster := true
      isDeployToDbServers := some true
      dcsDatabases := some (List.replicate 3 ⟨some "", some "", some "2379"⟩) }
  else {}

def loadBalancersDefaultValues (expert : Bool) : LoadBalancersBlockValues :=
  if expert then { loadBalancerDatabases := some [⟨some "", some ""⟩] } else {}

def backupsDefaultValues (expert : Bool) : BackupsBlockValues :=
  if expert then
    { isBackupsEnabled := true
      backupMethod := some "pgbackrest_install"
      backupRetention := some (natural 30)
      backupStartTime := some (natural 1)
      backupConfig := some []
      backupAccessKey := some ""
      backupSecretKey := some "" }
  else {}

def databasesDefaultValues (expert : Bool) : DatabasesBlockValues :=
  if expert then
    { databasesBlock :=
        some [⟨some "db1", some "db1_user", some "", some "UTF8", some "en_US.UTF-8"⟩] }
  else {}

def poolsDefaultValues (expert : Bool) : ConnectionPoolBlockValues :=
  if expert then
    { isConnectionPoolerEnabled := true
      pools := some [⟨some "db1", some (natural 20), some "transaction"⟩] }
  else {}

def parametersDefaultValues (expert : Bool) : ParametersBlockValues :=
  if expert then ⟨some [], some []⟩ else {}

def additionalDefaultValues (expert : Bool) : AdditionalSettingsBlockValues :=
  if expert then
    { synchronousStandbyModes := some (natural 0)
      isNetdataMonitoring := true
      isCloudLoadBalancer := true }
  else {}

def clusterFormDefaultValues (expert : Bool) : ClusterFormValues where
  toClusterCloudProviderFormValues := cloudClusterDefaultValues expert
  toDcsBlockFormValues := dcsDefaultValues expert
  toLoadBalancersBlockValues := loadBalancersDefaultValues expert
  toBackupsBlockValues := backupsDefaultValues expert
  toDatabasesBlockValues := databasesDefaultValues expert
  toConnectionPoolBlockValues := poolsDefaultValues expert
  toParametersBlockValues := parametersDefaultValues expert
  toAdditionalSettingsBlockValues := additionalDefaultValues expert
  authenticationMethod := some "ssh_key"
  description := some ""
  secretId := some ""
  databaseServers := some (List.replicate 3 ⟨some "", some "", some "", none⟩)
  extensions := if expert then some [] else none
  dataDirectory := if expert then some "/pgdata/18/main" else none

/-! ## Changes -/

/-- A change of the form: what the page fills in once it is loaded, the choice of a provider, or
new contents of a block. -/
inductive Edit where
  | loaded (p : Option Provider) (region : Option RegionConfig) (config : Option InstanceConfig)
      (version environment : Option ℕ) (name : String) (volume : Option String)
  | provider (p : Provider) (region : Option RegionConfig) (config : Option InstanceConfig)
      (storage : Option Json)
  | common (block : CommonFormValues)
  | cloud (block : ClusterCloudProviderFormValues)
  | databaseServers (block : DatabaseServerBlockValues)
  | authentication (block : AuthenticationFormValues)
  | vipAddress (address : String)
  | loadBalancers (block : LoadBalancersBlockValues)
  | dcs (block : DcsBlockFormValues)
  | dataDirectory (directory : String)
  | databases (block : DatabasesBlockValues)
  | extensions (block : ExtensionsBlockValues)
  | connectionPools (block : ConnectionPoolBlockValues)
  | backups (block : BackupsBlockValues)
  | parameters (block : ParametersBlockValues)
  | additionalSettings (block : AdditionalSettingsBlockValues)

/-- A block that the mode does not show is not changed. -/
def edit (expert : Bool) (values : ClusterFormValues) : Edit → ClusterFormValues
  | .loaded p region config version environment name volume =>
    { values with
      provider := p
      regionConfig := region
      instanceConfig := config
      postgresVersion := version
      environment := environment
      clusterName := some name
      volumeType := if expert then volume else values.volumeType }
  | .provider p region config storage =>
    { values with
      provider := some p
      regionConfig := region
      instanceType := some "small"
      instanceConfig := config
      storageAmount := storage
      isBackupsEnabled := decide (p.code ≠ some "local") }
  | .common block => { values with toCommonFormValues := block }
  | .cloud block => { values with toClusterCloudProviderFormValues := block }
  | .databaseServers block => { values with toDatabaseServerBlockValues := block }
  | .authentication block => { values with toAuthenticationFormValues := block }
  | .vipAddress address => { values with clusterVIPAddress := some address }
  | .loadBalancers block =>
    if expert then { values with toLoadBalancersBlockValues := block }
    else { values with isHaproxyEnabled := block.isHaproxyEnabled }
  | .dcs block => if expert then { values with toDcsBlockFormValues := block } else values
  | .dataDirectory directory =>
    if expert then { values with dataDirectory := some directory } else values
  | .databases block => if expert then { values with toDatabasesBlockValues := block } else values
  | .extensions block => if expert then { values with toExtensionsBlockValues := block } else values
  | .connectionPools block =>
    if expert then { values with toConnectionPoolBlockValues := block } else values
  | .backups block => if expert then { values with toBackupsBlockValues := block } else values
  | .parameters block => if expert then { values with toParametersBlockValues := block } else values
  | .additionalSettings block =>
    if expert then { values with toAdditionalSettingsBlockValues := block } else values

/-- The form after some changes. The mode may have been switched since the page was loaded. -/
def filledIn (loaded expert : Bool) (edits : List Edit) : ClusterFormValues :=
  TransitionRuns.run (edit expert) (clusterFormDefaultValues loaded) edits

/-- Outside expert mode no change reaches the store of the configuration. -/
theorem filledIn_dcs (loaded : Bool) (edits : List Edit) :
    (filledIn loaded false edits).toDcsBlockFormValues = dcsDefaultValues loaded := by
  refine TransitionRuns.run_of
    (I := fun v : ClusterFormValues => v.toDcsBlockFormValues = dcsDefaultValues loaded)
    (fun v e hv => ?_) rfl edits
  cases e <;> exact hv

/-! ## The schema of local machines -/

section Schema

-- the test for an address is the one of a library
variable (isIpV4 : String → Bool)

def required (s : Option String) : Bool := s.any fun t => t ≠ ""

def requiredIp (s : Option String) : Bool := required s && s.any isIpV4

def optional (P : Pattern Char) : Pattern Char := .alt .nil P

def word (s : String) : Pattern Char :=
  s.toList.foldr (fun c P => .seq (.one fun d => d == c) P) .nil

def digits : Pattern Char := .plus (.one Char.isDigit)

/-- The literals that `Number` reads; blanks around them do not count. -/
def numericLiteral : Pattern Char :=
  let sign := optional (.one fun c => c == '+' || c == '-')
  let exponent := optional (.seq (.one fun c => c == 'e' || c == 'E') (.seq sign digits))
  let fraction := optional (.seq (word ".") (optional digits))
  let decimal := Pattern.alt (.seq digits (.seq fraction exponent))
    (.seq (word ".") (.seq digits exponent))
  let radix (marks : String) (p : Char → Bool) : Pattern Char :=
    .seq (word "0") (.seq (.one fun c => marks.toList.contains c) (.plus (.one p)))
  .alt .nil (.alt (.seq sign (.alt (word "Infinity") decimal))
    (.alt (radix "xX" fun c => c.isDigit || ('a' ≤ c && c ≤ 'f') || ('A' ≤ c && c ≤ 'F'))
      (.alt (radix "oO" fun c => '0' ≤ c && c ≤ '7')
        (radix "bB" fun c => c == '0' || c == '1'))))

def isSpaceChar (c : Char) : Bool := decide (c.toNat < 0x10000) && isSpace (UInt16.ofNat c.toNat)

/-- `!Number.isNaN(Number(value))` -/
def isNumber (s : String) : Bool :=
  numericLiteral.test ((s.toList.dropWhile isSpaceChar).reverse.dropWhile isSpaceChar).reverse

def databaseServersBlockSchema (values : ClusterFormValues) : Bool :=
  (values.databaseServers.getD []).all fun row =>
    required row.databaseServerHostname && requiredIp isIpV4 row.databaseServerIpAddress

def loadBalancerBlockSchema (expert : Bool) (values : ClusterFormValues) : Bool :=
  !(expert && values.isHaproxyEnabled && !values.isDeployToDatabaseServers) ||
    (values.loadBalancerDatabases.getD []).all fun row =>
      required row.loadBalancerDatabasesHostname &&
        requiredIp isIpV4 row.loadBalancerDatabasesIpAddress

def dcsBlockSchema (expert : Bool) (values : ClusterFormValues) : Bool :=
  let toDbServers := values.isDeployToDbServers.getD false
  !(expert && !(values.isDeployNewCluster && toDbServers)) ||
    (values.dcsDatabases.getD []).all fun row =>
      requiredIp isIpV4 row.dcsDatabaseIpAddress &&
      (!(!values.isDeployNewCluster && decide (values.type = some "etcd")) ||
        (required row.dcsDatabasePort && row.dcsDatabasePort.any isNumber)) &&
      (!(values.isDeployNewCluster && !toDbServers) || required row.dcsDatabaseHostname)

/-- What the schema asks of a form of local machines; of another one it asks nothing. -/
def localFormSchema (expert : Bool) (values : ClusterFormValues) : Bool :=
  !isLocal values ||
    (required values.authenticationMethod &&
    (!(decide (values.authenticationMethod = some "ssh_key") && !values.isUseDefinedSecret) ||
      required values.sshPrivateKey) &&
    (!(decide (values.authenticationMethod = some "password") && !values.isUseDefinedSecret) ||
      (required values.username && required values.password)) &&
    (!values.authenticationSaveToConsole || required values.secretKeyName) &&
    values.clusterVIPAddress.all (fun a => a == "" || isIpV4 a) &&
    (!values.isUseDefinedSecret || required values.secretId) &&
    databaseServersBlockSchema isIpV4 values &&
    loadBalancerBlockSchema isIpV4 expert values && dcsBlockSchema isIpV4 expert values)

def clusterNamePattern : Pattern Char :=
  let alnum (c : Char) : Bool := c.isDigit || c.isLower
  .seq (.one alnum) ((List.replicate 23 (Pattern.one fun c => alnum c || c == '-')).foldr
    (fun P Q => optional (.seq P Q)) .nil)

/-- The whole schema outside expert mode; its cloud part asks nothing of local machines. -/
def acceptsLocal (values : ClusterFormValues) : Bool :=
  isLocal values && values.clusterName.any (fun n => clusterNamePattern.test n.toList) &&
    values.postgresVersion.isSome && localFormSchema isIpV4 false values

end Schema

/-- What the library's pattern for addresses matches. -/
def dottedQuad (s : String) : Bool :=
  let digit (lo hi : Char) : Pattern Char := .one fun c => lo ≤ c && c ≤ hi
  let octet : Pattern Char :=
    .alt (.seq (word "25") (digit '0' '5')) (.alt (.seq (word "2") (.seq (digit '0' '4')
      (digit '0' '9'))) (.alt (.seq (word "1") (.seq (digit '0' '9') (digit '0' '9')))
      (.alt (.seq (digit '1' '9') (digit '0' '9')) (digit '0' '9'))))
  let next : Pattern Char := .seq (word ".") octet
  (Pattern.seq octet (.seq next (.seq next next))).test s.toList

end ConsoleClusterForm
