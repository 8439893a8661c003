import Autobase.ConsoleFormExtraVars
import Autobase.ConsoleInventoryUpload
import Mathlib.Data.List.Forall2

/-! # The inventory of the form

A form of local machines becomes an inventory whose groups are objects with one member an
address. The first row is the master and the other ones are replicas; the server counts the
members of both. -/
namespace ConsoleFormInventory

open ConsoleClusterForm ConsoleFormExtraVars ConsoleInventoryUpload ConsolePostCluster
  ConsoleLogEntity ConsoleSchema JsonText ObjectLiterals
open ConsoleInventoryFile (Standard inventoryJsonEnv cloud_provider_body getValFromVars_inventory)
open ConsoleSecretFlow (getValFromVars_skip prefix_take)
open JsonStrings (texts mapText mapText_eq_self)
open Utf8Text (reread_eq_self)

/-! ## The groups -/

/-- A missing address becomes the key that JavaScript makes of it. -/
def address (server : DatabaseServer) : String := server.databaseServerIpAddress.getD "undefined"

def group (hosts : List (String × Json)) : Option Json :=
  some (record [("hosts", some (.obj hosts))])

/-- The hosts of the database servers or of the rows for the store of the configuration. -/
def configureHosts (values : ClusterFormValues) (role : Option String)
    (shouldAddHostname isDbServers : Bool) : Option (List (String × Json)) :=
  let roleField : Fields := role.toList.map fun r => ("consul_node_role", some (.str r))
  if isDbServers then
    values.databaseServers.map fun rows => object (rows.map fun server => (address server,
      record (("ansible_host", text server.databaseServerIpAddress) :: roleField)))
  else
    values.dcsDatabases.map fun rows => object (rows.map fun server =>
      (server.dcsDatabaseIpAddress.getD "undefined",
        record (("ansible_host", text server.dcsDatabaseIpAddress) ::
          ((if shouldAddHostname then [("hostname", text server.dcsDatabaseHostname)] else []) ++
            roleField))))

def dcsGroups (etcd consul : List (String × Json)) : Fields :=
  [("etcd_cluster", group etcd), ("consul_instances", group consul)]

/-- Without a new cluster there are no groups, but for the clients of an existing Consul. -/
def constructDcsEnvs (expert : Bool) (values : ClusterFormValues) : Option Fields :=
  if values.isDeployNewCluster then
    if expert then
      if values.type = some "etcd" then
        (configureHosts values none (!values.isDeployToDbServers.getD false)
          (values.isDeployToDbServers.getD true)).map fun hosts => dcsGroups hosts []
      else if values.type = some "consul" then
        if values.isDeployToDbServers.getD false then
          (configureHosts values (some "server") false true).map fun hosts => dcsGroups [] hosts
        else
          (configureHosts values (some "client") false true).bind fun clients =>
          (configureHosts values (some "server") true false).map fun servers =>
            dcsGroups [] (object (clients ++ servers))
      else some (dcsGroups [] [])
    else (configureHosts values none false true).map fun hosts => dcsGroups hosts []
  else if expert && decide (values.type = some "consul") then
    (configureHosts values (some "client") false true).map fun hosts =>
      [("consul_instances", group hosts)]
  else some []

def constructBalancersEnvs (expert : Bool) (values : ClusterFormValues) : Option Fields :=
  let hosts :=
    if values.isHaproxyEnabled then
      if expert && !values.isDeployToDatabaseServers then
        values.loadBalancerDatabases.map fun rows => object (rows.map fun server =>
          (server.loadBalancerDatabasesIpAddress.getD "undefined",
            record [("ansible_host", text server.loadBalancerDatabasesIpAddress)]))
      else
        values.databaseServers.map fun rows => object (rows.map fun server =>
          (address server, record [("ansible_host", text server.databaseServerIpAddress)]))
    else some []
  hosts.map fun hosts => [("balancers", group hosts)]

def serverHost (expert : Bool) (values : ClusterFormValues) (server : DatabaseServer) :
    String × Json :=
  (address server,
    record [("hostname", text server.databaseServerHostname),
      ("ansible_host", text server.databaseServerIpAddress),
      ("server_location", text server.databaseServerLocation),
      ("postgresql_exists", if expert then server.databaseServerIsPostgreSQLExist.map .bool
        else some (.bool values.databaseServerExistingCluster))])

/-- The first row is read before anything asks whether there is one. -/
def serverGroups (expert : Bool) (values : ClusterFormValues) : Option Fields :=
  match values.databaseServers with
  | none | some [] => none
  | some (first :: rest) =>
    some (("master", group [serverHost expert values first]) ::
      ((if rest.isEmpty then []
        else [("replica", group (object (rest.map (serverHost expert values))))]) ++
      [("postgres_cluster", some (record [("children",
        some (record [("master", some (.obj [])), ("replica", some (.obj []))]))]))]))

/-! ## The inventory -/

def inventoryVars (values : ClusterFormValues) : Fields :=
  ("ansible_user", text values.username) ::
    (if values.authenticationMethod = some "password" then
      [("ansible_ssh_pass", text values.username), ("ansible_sudo_pass", text values.password)]
    else [])

def inventoryJson (expert : Bool) (values : ClusterFormValues) : Option Json :=
  (constructBalancersEnvs expert values).bind fun balancers =>
  (constructDcsEnvs expert values).bind fun dcs =>
  (serverGroups expert values).map fun servers =>
    record [("all", some (record [("vars", some (record (inventoryVars values))),
      ("children", some (record (balancers ++ (dcs ++ servers))))]))]

def getLocalMachineEnvs (expert : Bool) (values : ClusterFormValues) (secretId : Option ℕ) :
    Option (List (String × UiValue)) :=
  let sshKey :=
    if values.authenticationMethod = some "ssh_key" ∧ ¬ values.isUseDefinedSecret ∧
        secretId.getD 0 = 0 then some (values.sshPrivateKey.getD "") else none
  (inventoryJson expert values).map (ConsoleInventoryUpload.getLocalMachineEnvs sshKey)

/-! ## Reading an inventory -/

def member (key : String) : Json → Option Json
  | .obj kvs => kvs.lookup key
  | _ => none

def entries : Json → Option (List (String × Json))
  | .obj kvs => some kvs
  | _ => none

def inventoryGroup (name : String) (inventory : Json) : Option Json :=
  ((member "all" inventory).bind (member "children")).bind (member name)

/-- The hosts of a group; a group that is not there has none. -/
def hostsIn (name : String) (inventory : Json) : List (String × Json) :=
  (((inventoryGroup name inventory).bind (member "hosts")).bind entries).getD []

/-- The host of a row, with its name and its location. -/
structure Describes (row : DatabaseServer) (host : String × Json) : Prop where
  address : host.1 = address row
  hostname : member "hostname" host.2 = text row.databaseServerHostname
  location : member "server_location" host.2 = text row.databaseServerLocation

/-- Both groups share no host, together they are the rows, and so many the server counts. -/
structure Partitions (inventory : Json) (rows : List DatabaseServer) : Prop where
  disjoint : List.Disjoint (keys (hostsIn "master" inventory)) (keys (hostsIn "replica" inventory))
  described : ∃ hosts, hosts.Perm (hostsIn "master" inventory ++ hostsIn "replica" inventory) ∧
    List.Forall₂ Describes rows hosts
  counted : (unmarshalInventory inventory).map hostCount = some (rows.length : ℤ)

/-- The inventory is made, and its groups divide the rows. -/
def PartitionsRows (expert : Bool) (values : ClusterFormValues) : Prop :=
  ∃ inventory, inventoryJson expert values = some inventory ∧
    Partitions inventory (values.databaseServers.getD [])

/-! ## What is generated -/

variable {expert : Bool} {values : ClusterFormValues} {name : String}

theorem member_record (key : String) (fields : Fields) :
    member key (record fields) = (fields.reverse.lookup key).join :=
  lookup_members key fields

/-- The names of the groups that the server does not read. -/
def otherGroups : List String := ["balancers", "etcd_cluster", "consul_instances"]

theorem constructBalancersEnvs_shape {balancers : Fields}
    (h : constructBalancersEnvs expert values = some balancers) :
    ∃ hosts, balancers = [("balancers", group hosts)] := by
  obtain ⟨hosts, -, rfl⟩ := Option.map_eq_some_iff.mp h
  exact ⟨hosts, rfl⟩

theorem constructDcsEnvs_shape {dcs : Fields} (h : constructDcsEnvs expert values = some dcs) :
    dcs = [] ∨ (∃ etcd consul, dcs = dcsGroups etcd consul) ∨
      ∃ hosts, dcs = [("consul_instances", group hosts)] := by
  rw [constructDcsEnvs] at h
  split at h
  · right
    left
    split at h
    · split at h
      · obtain ⟨hosts, -, rfl⟩ := Option.map_eq_some_iff.mp h
        exact ⟨hosts, [], rfl⟩
      · split at h
        · split at h
          · obtain ⟨hosts, -, rfl⟩ := Option.map_eq_some_iff.mp h
            exact ⟨[], hosts, rfl⟩
          · obtain ⟨clients, -, h⟩ := Option.bind_eq_some_iff.mp h
            obtain ⟨servers, -, rfl⟩ := Option.map_eq_some_iff.mp h
            exact ⟨[], _, rfl⟩
        · cases h
          exact ⟨[], [], rfl⟩
    · obtain ⟨hosts, -, rfl⟩ := Option.map_eq_some_iff.mp h
      exact ⟨hosts, [], rfl⟩
  · split at h
    · obtain ⟨hosts, -, rfl⟩ := Option.map_eq_some_iff.mp h
      exact Or.inr (Or.inr ⟨hosts, rfl⟩)
    · cases h
      exact Or.inl rfl

/-- The parts of an inventory that was made. -/
structure Made (expert : Bool) (values : ClusterFormValues) (inventory : Json)
    (others : Fields) (first : DatabaseServer) (rest : List DatabaseServer) : Prop where
  rows : values.databaseServers = some (first :: rest)
  names : keys others ⊆ otherGroups
  apart : (keys others).Nodup
  dcs : ∃ dcs, constructDcsEnvs expert values = some dcs ∧
    ∀ name ≠ "balancers", others.reverse.lookup name = dcs.reverse.lookup name
  inventory : ∃ servers, serverGroups expert values = some servers ∧
    inventory = record [("all", some (record [("vars", some (record (inventoryVars values))),
      ("children", some (record (others ++ servers)))]))]

theorem made {inventory : Json} (h : inventoryJson expert values = some inventory) :
    ∃ others first rest, Made expert values inventory others first rest := by
  obtain ⟨balancers, hb, h⟩ := Option.bind_eq_some_iff.mp h
  obtain ⟨dcs, hd, h⟩ := Option.bind_eq_some_iff.mp h
  obtain ⟨servers, hs, rfl⟩ := Option.map_eq_some_iff.mp h
  obtain ⟨first, rest, hrows⟩ : ∃ first rest, values.databaseServers = some (first :: rest) := by
    rw [serverGroups] at hs
    split at hs
    · cases hs
    · cases hs
    · next first rest he => exact ⟨first, rest, he⟩
  obtain ⟨hosts, rfl⟩ := constructBalancersEnvs_shape hb
  refine ⟨_ :: dcs, first, rest, hrows, ?_, ?_, ⟨dcs, hd, fun name hname => ?_⟩, servers, hs, rfl⟩
  · rcases constructDcsEnvs_shape hd with rfl | ⟨etcd, consul, rfl⟩ | ⟨consul, rfl⟩ <;>
      simp [keys, dcsGroups, otherGroups]
  · rcases constructDcsEnvs_shape hd with rfl | ⟨etcd, consul, rfl⟩ | ⟨consul, rfl⟩ <;>
      simp [keys, dcsGroups]
  · rw [List.reverse_cons, List.lookup_append, lookup_cons_eq, if_neg hname]
    exact Option.or_none

/-! ## What is read back -/

section Made

variable {inventory : Json} {others : Fields} {first : DatabaseServer}
  {rest : List DatabaseServer}

theorem inventoryGroup_record (vars : Option Json) (children : Fields) :
    inventoryGroup name (record [("all", some (record [("vars", vars),
      ("children", some (record children))]))]) = (children.reverse.lookup name).join := by
  rw [inventoryGroup, member_record]
  change ((some (record [("vars", vars), ("children", some (record children))])).bind
    (member "children")).bind (member name) = _
  rw [Option.bind_some, member_record]
  change (some (record children)).bind (member name) = _
  rw [Option.bind_some, member_record]

theorem serverGroups_eq (h : values.databaseServers = some (first :: rest)) :
    serverGroups expert values =
      some (("master", group [serverHost expert values first]) ::
        ((if rest.isEmpty then []
          else [("replica", group (object (rest.map (serverHost expert values))))]) ++
        [("postgres_cluster", some (record [("children",
          some (record [("master", some (.obj [])), ("replica", some (.obj []))]))]))])) := by
  rw [serverGroups, h]

theorem Made.hostsIn_master (h : Made expert values inventory others first rest) :
    hostsIn "master" inventory = [serverHost expert values first] := by
  obtain ⟨servers, hs, rfl⟩ := h.inventory
  rw [serverGroups_eq h.rows] at hs
  cases hs
  rw [hostsIn, inventoryGroup_record, List.reverse_append, List.lookup_append]
  cases rest <;> rfl

theorem Made.hostsIn_replica (h : Made expert values inventory others first rest) :
    hostsIn "replica" inventory = object (rest.map (serverHost expert values)) := by
  have hothers : others.reverse.lookup "replica" = none := by
    refine lookup_of_notMem fun hmem => ?_
    rw [keys, List.map_reverse, List.mem_reverse] at hmem
    exact absurd (h.names hmem) (by decide)
  obtain ⟨servers, hs, rfl⟩ := h.inventory
  rw [serverGroups_eq h.rows] at hs
  cases hs
  rw [hostsIn, inventoryGroup_record, List.reverse_append, List.lookup_append, hothers]
  cases rest <;> rfl

theorem fits_record {fields : Fields} (h : ∀ f ∈ fields, ∀ v ∈ f.2, fitsInterface v = true) :
    fitsInterface (record fields) = true := by
  rw [record, fitsInterface, fitMembers_eq, List.all_eq_true]
  exact fun a ha => h _ (mem_of_mem_members ha) a.2 rfl

theorem fits_serverHost (row : DatabaseServer) :
    fitsInterface (serverHost expert values row).2 = true := by
  refine fits_record fun f hf v hv => ?_
  have htext : ∀ {s : Option String}, v ∈ text s → fitsInterface v = true := by
    intro s hs
    obtain ⟨t, -, rfl⟩ := Option.map_eq_some_iff.mp hs
    rfl
  simp only [List.mem_cons, List.not_mem_nil, or_false] at hf
  rcases hf with rfl | rfl | rfl | rfl
  · exact htext hv
  · exact htext hv
  · exact htext hv
  · cases expert with
    | true =>
      obtain ⟨b, -, rfl⟩ := Option.map_eq_some_iff.mp hv
      rfl
    | false =>
      cases hv
      rfl

/-- A map that is read from an object of the form has the same members. -/
theorem unmarshalMap_hosts (rows : List DatabaseServer) :
    unmarshalMap [] (.obj (object (rows.map (serverHost expert values)))) =
      some (object (rows.map (serverHost expert values))) := by
  have hfit : fitMembers (object (rows.map (serverHost expert values))) = true := by
    rw [fitMembers_eq, List.all_eq_true]
    intro a ha
    obtain ⟨row, -, rfl⟩ := List.mem_map.mp (mem_of_mem_object ha)
    exact fits_serverHost row
  rw [unmarshalMap, if_pos hfit]
  refine congrArg some ((mapOf_eq_object _).trans ?_)
  exact object_eq_self (nodup_object _)

theorem unmarshalMembers_skip {α : Type} {field : String → Option (α → Json → Option α)}
    {ms : List (String × Json)} (h : ∀ m ∈ ms, field m.1 = none) (a : α)
    (rest : List (String × Json)) :
    unmarshalMembers field a (ms ++ rest) = unmarshalMembers field a rest := by
  induction ms with
  | nil => rfl
  | cons m ms ih =>
    obtain ⟨hm, hms⟩ := List.forall_mem_cons.mp h
    rw [List.cons_append, unmarshalMembers, hm]
    exact ih hms

theorem named_head {α : Type} (key : String) (f : α → Json → Option α)
    (names : List (String × (α → Json → Option α))) : named ((key, f) :: names) key = some f := by
  simp [named]

theorem named_skip {α : Type} {key key' : String} (h : foldName key' ≠ foldName key)
    (f : α → Json → Option α) (names : List (String × (α → Json → Option α))) :
    named ((key', f) :: names) key = named names key := by
  simp [named, h]

theorem unmarshalMembers_cons {α : Type} {field : String → Option (α → Json → Option α)}
    {f : α → Json → Option α} {key : String} (h : field key = some f) (a : α) (v : Json)
    (ms : List (String × Json)) : unmarshalMembers field a ((key, v) :: ms) =
      (f a v).bind fun a' => unmarshalMembers field a' ms := by
  rw [unmarshalMembers, h]

theorem unmarshalMembers_single {α : Type} {field : String → Option (α → Json → Option α)}
    {f : α → Json → Option α} {key : String} (h : field key = some f) (a : α) (v : Json) :
    unmarshalMembers field a [(key, v)] = f a v := by
  rw [unmarshalMembers_cons h]
  cases f a v <;> rfl

def hostsRecord (expert : Bool) (values : ClusterFormValues) (rows : List DatabaseServer) :
    Json :=
  record [("hosts", some (.obj (object (rows.map (serverHost expert values)))))]

theorem hostsInto_group {set : InventoryJson → VarMap → InventoryJson}
    {get : InventoryJson → VarMap} {inv : InventoryJson} (hget : get inv = [])
    (rows : List DatabaseServer) :
    hostsInto set get inv (hostsRecord expert values rows) =
      some (set inv (object (rows.map (serverHost expert values)))) := by
  refine (unmarshalMembers_single (named_head _ _ _) inv _).trans ?_
  rw [hget, unmarshalMap_hosts]
  rfl

theorem defined_serverGroups (h : values.databaseServers = some (first :: rest))
    {servers : Fields} (hs : serverGroups expert values = some servers) :
    ∃ v, defined servers = ("master", hostsRecord expert values [first]) ::
      ((if rest.isEmpty then [] else [("replica", hostsRecord expert values rest)]) ++
        [("postgres_cluster", v)]) := by
  rw [serverGroups_eq h] at hs
  cases hs
  cases rest <;> exact ⟨_, rfl⟩

/-- The keys under `children` are different ones. -/
theorem Made.nodup_children (h : Made expert values inventory others first rest)
    {servers : Fields} (hs : serverGroups expert values = some servers) :
    (keys (others ++ servers)).Nodup := by
  rw [serverGroups_eq h.rows] at hs
  cases hs
  rw [keys, List.map_append]
  refine List.Nodup.append h.apart ?_ fun name hothers hservers => ?_
  · cases rest <;> simp
  · have hname := h.names hothers
    simp only [otherGroups, List.mem_cons, List.not_mem_nil, or_false] at hname
    revert hservers
    rcases hname with rfl | rfl | rfl <;> cases rest <;> simp

def readGroups : List (String × (InventoryJson → Json → Option InventoryJson)) :=
  [("master", hostsInto (fun inv m => { inv with master := m }) InventoryJson.master),
    ("replica", hostsInto (fun inv m => { inv with replica := m }) InventoryJson.replica)]

theorem readGroups_other (h : name ∈ "postgres_cluster" :: otherGroups) :
    named readGroups name = none := by
  have hfold : foldName "master" ≠ foldName name ∧ foldName "replica" ≠ foldName name := by
    simp only [otherGroups, List.mem_cons, List.not_mem_nil, or_false] at h
    rcases h with rfl | rfl | rfl | rfl <;> decide
  rw [readGroups, named_skip hfold.1, named_skip hfold.2]
  rfl

theorem unmarshalInventory_children (vars : Json) (children : Fields) :
    unmarshalInventory (record [("all", some (record [("vars", some vars),
      ("children", some (record children))]))]) =
      unmarshalMembers (named readGroups) ⟨[], []⟩ (members children) := by
  refine (unmarshalMembers_single (named_head _ _ _) _ _).trans ?_
  have hvars : ∀ m ∈ [("vars", vars)],
      named [("children", unmarshalStruct (named readGroups))] m.1 = none := by
    intro m hm
    have hfold : foldName "children" ≠ foldName "vars" := by decide
    rw [List.mem_singleton.mp hm, named_skip hfold]
    rfl
  refine (unmarshalMembers_skip hvars ⟨[], []⟩ [("children", record children)]).trans ?_
  exact unmarshalMembers_single (named_head _ _ _) _ _

/-- What the server decodes. -/
theorem Made.unmarshalInventory (h : Made expert values inventory others first rest) :
    unmarshalInventory inventory = some
      ⟨hostsIn "master" inventory, hostsIn "replica" inventory⟩ := by
  rw [h.hostsIn_master, h.hostsIn_replica]
  obtain ⟨servers, hs, rfl⟩ := h.inventory
  have hothers : ∀ m ∈ defined others, named readGroups m.1 = none := by
    intro m hm
    have hname := h.names (List.mem_map_of_mem (mem_of_mem_members
      (members_eq_defined h.apart ▸ hm)))
    exact readGroups_other (List.mem_cons_of_mem _ hname)
  have hmaster : named readGroups "master" = _ := named_head _ _ _
  have hreplica : named readGroups "replica" = _ :=
    (named_skip (by decide) _ _).trans (named_head _ _ _)
  have hlast (inv : InventoryJson) (v : Json) :
      unmarshalMembers (named readGroups) inv [("postgres_cluster", v)] = some inv := by
    rw [unmarshalMembers, readGroups_other List.mem_cons_self]
    rfl
  obtain ⟨v, hv⟩ := defined_serverGroups h.rows hs
  rw [unmarshalInventory_children, members_eq_defined (h.nodup_children hs), defined_append,
    unmarshalMembers_skip hothers, hv, unmarshalMembers_cons hmaster, hostsInto_group rfl,
    Option.bind_some]
  cases rest with
  | nil => exact hlast _ v
  | cons second rest =>
    rw [List.isEmpty_cons, if_neg Bool.false_ne_true, List.singleton_append,
      unmarshalMembers_cons hreplica, hostsInto_group rfl, Option.bind_some]
    exact hlast _ v

/-! ## When it is made -/

/-- Whether the rows for other machines are read. -/
def readsBalancerRows (expert : Bool) (values : ClusterFormValues) : Bool :=
  values.isHaproxyEnabled && (expert && !values.isDeployToDatabaseServers)

def readsDcsRows (expert : Bool) (values : ClusterFormValues) : Bool :=
  values.isDeployNewCluster && expert &&
    (decide (values.type = some "etcd") && !values.isDeployToDbServers.getD true ||
      decide (values.type = some "consul") && !values.isDeployToDbServers.getD false)

structure Buildable (expert : Bool) (values : ClusterFormValues) : Prop where
  servers : values.databaseServers.getD [] ≠ []
  balancers : readsBalancerRows expert values = true → values.loadBalancerDatabases.isSome
  dcs : readsDcsRows expert values = true → values.dcsDatabases.isSome

theorem constructBalancersEnvs_isSome (h : values.databaseServers.isSome) :
    (constructBalancersEnvs expert values).isSome ↔
      (readsBalancerRows expert values = true → values.loadBalancerDatabases.isSome) := by
  rw [constructBalancersEnvs, Option.isSome_map, readsBalancerRows]
  cases values.isHaproxyEnabled with
  | false => simp
  | true =>
    cases hrows : expert && !values.isDeployToDatabaseServers <;> simp [h]

theorem configureHosts_isSome (h : values.databaseServers.isSome) (role : Option String)
    (named isDbServers : Bool) : (configureHosts values role named isDbServers).isSome ↔
      (isDbServers = false → values.dcsDatabases.isSome) := by
  cases isDbServers <;> simp [configureHosts, h]

theorem constructDcsEnvs_isSome (h : values.databaseServers.isSome) :
    (constructDcsEnvs expert values).isSome ↔
      (readsDcsRows expert values = true → values.dcsDatabases.isSome) := by
  rw [constructDcsEnvs, readsDcsRows]
  split
  · next hnew =>
    split
    · next hexpert =>
      split
      · next htype => simp [configureHosts_isSome h, hnew, hexpert, htype]
      · next htype =>
        split
        · next hc =>
          split
          · next hdb => simp [configureHosts_isSome h, hdb, hc]
          · next hdb =>
            rw [isSome_bind_iff fun _ => by rw [Option.isSome_map, configureHosts_isSome h]]
            simp [configureHosts_isSome h, hnew, hexpert, hc, hdb]
        · next hc => simp [htype, hc]
    · next hexpert => simp [configureHosts_isSome h, hexpert]
  · next hnew =>
    split <;> simp [configureHosts_isSome h, hnew]

theorem serverGroups_isSome : (serverGroups expert values).isSome ↔
    values.databaseServers.getD [] ≠ [] := by
  rw [serverGroups]
  rcases values.databaseServers with - | - | ⟨first, rest⟩ <;> simp

/-- An inventory comes from at least one row and from all the rows that its mode reads. -/
theorem inventoryJson_isSome : (inventoryJson expert values).isSome ↔
    Buildable expert values := by
  rw [inventoryJson, isSome_bind_iff fun _ => isSome_bind_iff fun _ => by
    rw [Option.isSome_map, serverGroups_isSome]]
  by_cases hrows : values.databaseServers.isSome
  · rw [constructBalancersEnvs_isSome hrows, constructDcsEnvs_isSome hrows]
    constructor
    · rintro ⟨hbalancers, hdcs, hservers⟩
      exact ⟨hservers, hbalancers, hdcs⟩
    · rintro ⟨hservers, hbalancers, hdcs⟩
      exact ⟨hbalancers, hdcs, hservers⟩
  · have hnone : values.databaseServers.getD [] = [] := by
      rw [Option.not_isSome_iff_eq_none.mp hrows]
      rfl
    exact iff_of_false (fun hb => hb.2.2 hnone) fun hb => hb.servers hnone

/-! ## The rows in their groups -/

theorem describes_serverHost (row : DatabaseServer) :
    Describes row (serverHost expert values row) := by
  constructor
  · rfl
  · rw [serverHost, member_record]
    exact Option.join_some
  · rw [serverHost, member_record]
    exact Option.join_some

theorem Made.nodup_of_partitions (h : Made expert values inventory others first rest)
    (hp : Partitions inventory (first :: rest)) : ((first :: rest).map address).Nodup := by
  obtain ⟨hosts, hperm, hrows⟩ := hp.described
  have hkeys : (first :: rest).map address = keys hosts := by
    refine List.forall₂_eq_eq_eq ▸ ?_
    rw [keys, List.forall₂_map_left_iff, List.forall₂_map_right_iff]
    exact hrows.imp fun row host hd => hd.address.symm
  have hmaster : (keys (hostsIn "master" inventory)).Nodup := by
    rw [h.hostsIn_master]
    exact List.nodup_singleton _
  have hreplica : (keys (hostsIn "replica" inventory)).Nodup := by
    rw [h.hostsIn_replica]
    exact nodup_object _
  rw [hkeys]
  refine (hperm.map Prod.fst).nodup_iff.mpr ?_
  rw [List.map_append]
  exact hmaster.append hreplica hp.disjoint

theorem Made.partitions_of_nodup (h : Made expert values inventory others first rest)
    (hn : ((first :: rest).map address).Nodup) : Partitions inventory (first :: rest) := by
  have hkeys (rows : List DatabaseServer) :
      keys (rows.map (serverHost expert values)) = rows.map address := by
    rw [keys, List.map_map]
    rfl
  obtain ⟨hfirst, hrest⟩ := List.nodup_cons.mp hn
  have hreplica : hostsIn "replica" inventory = rest.map (serverHost expert values) := by
    rw [h.hostsIn_replica, object_eq_self (hkeys rest ▸ hrest)]
  constructor
  · rw [h.hostsIn_master, hreplica, hkeys]
    exact List.disjoint_singleton.mpr hfirst |>.symm
  · refine ⟨(first :: rest).map (serverHost expert values), ?_, ?_⟩
    · rw [h.hostsIn_master, hreplica]
      exact List.Perm.refl _
    · rw [List.forall₂_map_right_iff]
      exact List.forall₂_same.mpr fun row _ => describes_serverHost row
  · rw [h.unmarshalInventory, Option.map_some, hostCount, h.hostsIn_master, hreplica]
    simp [Int.add_comm]

end Made

/-- The rows are divided among the groups exactly when no address is repeated. -/
theorem server_rows_partitioned_iff (expert : Bool) (values : ClusterFormValues) :
    PartitionsRows expert values ↔ Buildable expert values ∧
      ((values.databaseServers.getD []).map address).Nodup := by
  constructor
  · rintro ⟨inventory, hi, hp⟩
    obtain ⟨others, first, rest, hm⟩ := made hi
    rw [hm.rows, Option.getD_some] at hp ⊢
    exact ⟨inventoryJson_isSome.mp (Option.isSome_iff_exists.mpr ⟨inventory, hi⟩),
      hm.nodup_of_partitions hp⟩
  · rintro ⟨hb, hn⟩
    obtain ⟨inventory, hi⟩ := Option.isSome_iff_exists.mp (inventoryJson_isSome.mpr hb)
    obtain ⟨others, first, rest, hm⟩ := made hi
    rw [hm.rows, Option.getD_some] at hn
    refine ⟨inventory, hi, ?_⟩
    rw [hm.rows, Option.getD_some]
    exact hm.partitions_of_nodup hn

/-- The count of a request whose inventory variable is read as the one that was made. -/
theorem Partitions.serverCount {C : Circumstances} {b : Body} {d : Db}
    {r : List String × ParamLocation} {inventory : Json} {rows : List DatabaseServer}
    (hp : Partitions inventory rows) (h : secretOf C b d = .ok r)
    (hlocal : ConsoleInventoryFile.isLocal b)
    (hread : (readInventory C b.envs).map Prod.fst = some inventory) (proxy : Option Json) :
    (prepare C b r proxy).serverCount = rows.length := by
  have henvs : readInventory C (allEnvs b r) = readInventory C b.envs := by
    rw [readInventory, readInventory]
    exact getValFromVars_inventory h ▸ rfl
  obtain ⟨⟨v, inv⟩, hr, rfl⟩ := Option.map_eq_some_iff.mp hread
  have hinv : unmarshalInventory v = some inv := by
    rw [readInventory] at hr
    split at hr
    · cases hr
    · obtain ⟨w, -, hw⟩ := Option.bind_eq_some_iff.mp hr
      obtain ⟨i, hi, he⟩ := Option.map_eq_some_iff.mp hw
      cases he
      exact hi
  have hcount : hostCount inv = (rows.length : ℤ) := by
    simpa [hinv] using hp.counted
  have hcloud : getValFromExtraVars (allExtraVars b r proxy) "cloud_provider" = "" :=
    (cloud_provider_body h proxy).trans hlocal
  rw [prepare, if_pos hcloud, henvs, hr]
  exact hcount

/-! ## The request of a form -/

/-- The key goes before the inventory and is not taken for it. -/
theorem readInventory_key {C : Circumstances} {sshKey : Option String} {v : Json}
    {envs : List String} (h : convertObjectValueToBase64Format
      (ConsoleInventoryUpload.getLocalMachineEnvs sshKey v) = some envs) :
    ∃ own, convertObjectValueToBase64Format
        (ConsoleInventoryUpload.getLocalMachineEnvs none v) = some own ∧
      readInventory C envs = readInventory C own := by
  cases sshKey with
  | none => exact ⟨envs, h, rfl⟩
  | some key =>
    change (("SSH_PRIVATE_KEY_CONTENT", UiValue.text key) ::
      ConsoleInventoryUpload.getLocalMachineEnvs none v).mapM _ = some envs at h
    rw [List.mapM_cons] at h
    obtain ⟨first, hf, h⟩ := Option.bind_eq_some_iff.mp h
    obtain ⟨own, ho, h⟩ := Option.bind_eq_some_iff.mp h
    obtain ⟨t, -, rfl⟩ := Option.map_eq_some_iff.mp hf
    cases h
    have hskip : ∀ kv ∈ ["SSH_PRIVATE_KEY_CONTENT" ++ ("=" ++ String.ofList t)],
        ((inventoryJsonEnv.toList.map toLowerRune) ++ ['=']).isPrefixOf
          (kv.toList.map toLowerRune) = false := by
      intro kv hkv
      rw [List.mem_singleton.mp hkv, Bool.eq_false_iff]
      intro hp
      have htake := prefix_take hp (n := 1) (by decide)
      rw [String.toList_append, List.map_append,
        List.take_append_of_le_length (by decide)] at htake
      exact absurd htake (by decide)
    have hval := getValFromVars_skip hskip [] own
    refine ⟨own, ho, ?_⟩
    rw [readInventory, readInventory]
    exact hval ▸ rfl

/-- A form of ASCII texts is counted as it is filled in. -/
theorem posted_serverCount {C : Circumstances} (hC : Standard C) {b : Body} {d : Db}
    {r : List String × ParamLocation} {ui : List (String × UiValue)} {secretId : Option ℕ}
    (hparts : PartitionsRows expert values)
    (hascii : ∀ v, inventoryJson expert values = some v →
      ∀ s ∈ texts v, ∀ c ∈ s.toList, c.toNat < 0x80)
    (hui : getLocalMachineEnvs expert values secretId = some ui)
    (henvs : convertObjectValueToBase64Format ui = some b.envs) (h : secretOf C b d = .ok r)
    (hlocal : ConsoleInventoryFile.isLocal b) (proxy : Option Json) :
    (prepare C b r proxy).serverCount = (values.databaseServers.getD []).length := by
  obtain ⟨inventory, hi, hp⟩ := hparts
  rw [getLocalMachineEnvs, hi, Option.map_some] at hui
  cases hui
  obtain ⟨own, ho, hread⟩ := readInventory_key (C := C) henvs
  have htexts := hascii inventory hi
  have hlatin : ∀ s ∈ texts inventory, ∀ c ∈ s.toList, c.toNat < 256 :=
    fun s hs c hc => Nat.lt_trans (htexts s hs c hc) (by decide)
  have hsame : mapText rereadString inventory = inventory := by
    refine (mapText_eq_self inventory).mpr fun s hs => ?_
    rw [rereadString, (reread_eq_self (hlatin s hs)).mpr (htexts s hs), String.ofList_toList]
  have hinv : (unmarshalInventory inventory).isSome := by
    obtain ⟨i, hi, -⟩ := Option.map_eq_some_iff.mp hp.counted
    rw [hi]
    rfl
  obtain ⟨sent, hs, harrived⟩ :=
    (transported_latin1_iff hC hinv ((render_latin1_iff inventory).mpr hlatin)).mpr hsame
  cases ho.symm.trans hs
  exact hp.serverCount h hlocal (hread ▸ harrived) proxy

/-- Two rows that name one machine. -/
def sameMachine : ClusterFormValues :=
  filledIn false false [.provider ⟨some "local"⟩ none none none,
    .databaseServers ⟨false, some [⟨some "pg1", some "10.0.0.1", some "dc1", none⟩,
      ⟨some "pg2", some "10.0.0.1", some "dc2", none⟩]⟩,
    .authentication { authenticationMethod := some "ssh_key", sshPrivateKey := some "key" }]

/-- The schema accepts an address that is repeated. -/
theorem repeated_address_shared : ¬ ∀ values : ClusterFormValues, isLocal values = true →
    localFormSchema dottedQuad false values = true → PartitionsRows false values := by
  intro h
  obtain ⟨inventory, hi, hp⟩ := h sameMachine rfl (by decide +kernel)
  obtain ⟨others, first, rest, hm⟩ := made hi
  rw [hm.rows, Option.getD_some] at hp
  have hnodup := hm.nodup_of_partitions hp
  cases hm.rows
  exact absurd hnodup (by decide)

end ConsoleFormInventory
