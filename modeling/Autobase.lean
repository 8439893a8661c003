import Autobase.JsonText
import Autobase.LineScanner
import Autobase.JsonRoundTrip
import Autobase.Base64Text
import Autobase.Utf8Text
import Autobase.JsonStrings
import Autobase.JsonNewline
import Autobase.TransitionRuns
import Autobase.PagedReads
import Autobase.RowTables
import Autobase.ConsoleSchema
import Autobase.ConsoleStatements
import Autobase.ConsoleServerCount
import Autobase.ConsoleLogEntity
import Autobase.ConsoleLogWatcher
import Autobase.ConsoleWatcherPasses
import Autobase.JsonAscii
import Autobase.ObjectLiterals
import Autobase.JsonLogCallback
import Autobase.ConsolePostCluster
import Autobase.ConsolePostClusterFailure
import Autobase.ConsoleLogPaths
import Autobase.ConsoleSecretFlow
import Autobase.UpgradeRollback
import Autobase.UpgradeRollbackChecks
import Autobase.RemoveNodeGuard
import Autobase.AnsiblePlays
import Autobase.EtcdMemberRemove
import Autobase.DirectoryPaths
import Autobase.UpgradeDirectories
import Autobase.ConsoleOperationLog
import Autobase.ConsoleInventoryFile
import Autobase.ConsoleStoredRows
import Autobase.ConsoleInventoryUpload
import Autobase.ConsolePostSecret
import Autobase.ConsoleRemoveCluster
import Autobase.ConsoleClusterPass
import Autobase.ConsoleHandleCluster
import Autobase.ConsoleClusterTopology
import Autobase.ConsoleRequestLog
import Autobase.ConsoleResponseCapture
import Autobase.ConsoleDefaultName
import Autobase.ConsoleClusterPassEnd
import Autobase.ConsoleClusterRefresh
import Autobase.ConsoleServerWrites
import Autobase.ConsoleUpdatedServers
import Autobase.ConsoleStatusCount
import Autobase.ConsoleClusterFlags
import Autobase.GroupedRows
import Autobase.ConsoleProviderInfo
import Autobase.SortedPages
import Autobase.ConsoleListings
import Autobase.ConsoleOperationFilters
import Autobase.ConsoleClusterFilters
import Autobase.LineEdits
import Autobase.LineFilters
import Autobase.PatroniConfigBackup
import Autobase.PatroniClient
import Autobase.ConsoleEnvironmentNames
import Autobase.ConsoleSecretUse
import Autobase.ConsoleDeleteCluster
import Autobase.ConsoleSoftDelete
import Autobase.ConsoleSortBy
import Autobase.ClassPatterns
import Autobase.ConsoleParameters
import Autobase.ConsoleClusterForm
import Autobase.ConsoleFormExtraVars
import Autobase.ConsoleFormInventory
import Autobase.ConsolePasswordCredentials
import Autobase.ConsoleDcsGroup
import Autobase.ConsoleRequestFields
import Autobase.VipManagerService
import Autobase.PatroniPaths
import Autobase.DirectoryCopies
import Autobase.ReplicaSync
import Autobase.CompletedLists
import Autobase.SharedPreloadLibraries
import Autobase.TemplateValues
import Autobase.PgbouncerPoolSize
import Autobase.SysctlConf
import Autobase.HugePages
import Autobase.HugePagesEffect
import Autobase.HugePagesSufficient
import Autobase.PgbouncerPause
import Autobase.PatroniTemplate
import Autobase.DocumentTrees
import Autobase.DocumentPlaces
import Autobase.YeditKeys
import Autobase.Yedit
import Autobase.YeditEdits
import Autobase.YeditRemoval
import Autobase.YeditModule
import Autobase.PatroniAuthentication
import Autobase.MergePatch
import Autobase.PatroniDynamicConfig
import Autobase.QuotedScalars
import Autobase.PatroniParameters
import Autobase.PatroniConfigUpgrade
import Autobase.PatroniConfigPrepared
import Autobase.PatroniConfigCut
import Autobase.PatroniCurrentPasswords
import Autobase.WordEdits
import Autobase.UpdateTraffic
import Autobase.BatchRuns
import Autobase.UpdateHost
import Autobase.RollingUpdate
import Autobase.RollingSwitchover
import Autobase.PatroniCustomWalDir
import Autobase.EtcdMemberAdd
import Autobase.EtcdMemberJoin
import Autobase.HaproxyServers
