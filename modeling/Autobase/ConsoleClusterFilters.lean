import Autobase.ConsoleListings
import Autobase.ConsolePostCluster

/-! # The filters of GET /clusters

The handler looks the environment up by its name before it lists the clusters. A name that is
not found leaves a nil pointer, a lookup that fails leaves no filter. -/
namespace ConsoleClusterFilters

open ConsoleSchema ConsoleClusterPass ConsoleListings RowTables PagedReads SortedPages

/-! ## The handler -/

inductive Call where
  | getProject
  | getEnvironmentByName
  | getClusters
  | getClusterServers (clusterID : ℤ)
  | getEnvironment (environmentID : ℤ)

/-- What a request meets with: the calls that fail, and the orders in which rows come. -/
structure Reads where
  pg : Postgres
  T : Stamps
  collation : Comparison String
  fails : Call → Bool
  environmentOrder : List Environment → List Environment
  environmentOrder_perm : ∀ rows, (environmentOrder rows).Perm rows
  arrange : Query Cluster → List Cluster
  arranged : ∀ q, Arranged q.order q.rows (arrange q)

structure GetClustersParams where
  projectID : ℤ
  name : Option String := none
  sortBy : Option String := none
  status : Option String := none
  location : Option String := none
  environment : Option String := none
  serverCount : Option ℤ := none
  postgresVersion : Option ℤ := none
  createdAtFrom : Option ℕ := none
  createdAtTo : Option ℕ := none
  limit : Option ℕ := none
  offset : Option ℕ := none

inductive Outcome where
  | nilDereference
  | badRequest
  | ok (data : List ConsolePostCluster.ClusterInfo) (info : MetaPagination)

variable (w : Reads) (param : GetClustersParams) (d : Db)

/-- The outer option is the error; no row is no error. -/
def getEnvironmentByName (name : String) : Option (Option Environment) :=
  if w.fails .getEnvironmentByName || !textIn name then none
  else some (w.environmentOrder
    (d.environments.filter fun e => decide (e.environmentName = name))).head?

/-- The pointer the request gets; the outer option is its dereference. -/
def environmentID : Option (Option ℤ) :=
  match param.environment with
  | none => some none
  | some name =>
    match getEnvironmentByName w d name with
    | none => some none
    | some environment => environment.map fun e => some e.environmentID

def GetClustersParams.request (environmentID : Option ℤ) : SortedClustersReq where
  projectID := param.projectID
  name := param.name
  sortBy := param.sortBy
  status := param.status
  location := param.location
  serverCount := param.serverCount
  postgresVersion := param.postgresVersion
  environmentID := environmentID
  createdAtFrom := param.createdAtFrom
  createdAtTo := param.createdAtTo
  limit := param.limit
  offset := param.offset

def GetClustersParams.accepted : Bool :=
  param.name.all textIn && param.status.all textIn && param.location.all textIn &&
    param.serverCount.all int4In && param.postgresVersion.all int4In

def listedClusters (environmentID : Option ℤ) : List Cluster :=
  page (param.limit.getD defaultLimit) (param.offset.getD 0)
    (w.arrange (clustersQuery w.T w.collation (param.request environmentID) d))

/-- The name of an environment and the cache with it. -/
def getEnvironmentCode (environmentID : ℤ) (cache : List (ℤ × String)) :
    Option (String × List (ℤ × String)) :=
  match cache.lookup environmentID with
  | some code => some (code, cache)
  | none =>
    if w.fails (.getEnvironment environmentID) then none
    else (getEnvironment environmentID d).map fun e =>
      (e.environmentName, (environmentID, e.environmentName) :: cache)

def convertClusters (project : Project) :
    List Cluster → List (ℤ × String) → Option (List ConsolePostCluster.ClusterInfo)
  | [], _ => some []
  | cl :: clusters, cache =>
    if w.fails (.getClusterServers cl.clusterID) then none
    else (getEnvironmentCode w d cl.environmentID cache).bind fun r =>
      (convertClusters project clusters r.2).map fun data =>
        ConsolePostCluster.clusterToSwagger w.pg cl (getClusterServers cl.clusterID d) r.1
          project.projectName :: data

def handle : Outcome :=
  match if w.fails .getProject then none else getProject param.projectID d with
  | none => .badRequest
  | some project =>
    match environmentID w param d with
    | none => .nilDereference
    | some id =>
      if w.fails .getClusters || !param.accepted then .badRequest
      else match convertClusters w d project (listedClusters w param d id) [] with
        | none => .badRequest
        | some data => .ok data
          ⟨param.limit.getD defaultLimit, param.offset.getD 0,
            (clustersQuery w.T w.collation (param.request id) d).count⟩

/-! ## What the parameters mean -/

/-- The parameters other than the environment. -/
def GetClustersParams.Fits (c : Cluster) : Bool :=
  decide (c.projectID = param.projectID) && c.deletedAt.isNone &&
    param.name.all (fun name => decide (c.clusterName = name)) &&
    param.status.all (fun status => decide (c.clusterStatus = status)) &&
    param.location.all (fun location => decide (c.clusterLocation = some location)) &&
    param.serverCount.all (fun n => decide (c.serverCount = n)) &&
    param.postgresVersion.all (fun n => decide (c.postgresVersion = n)) &&
    param.createdAtFrom.all (fun t => decide (t ≤ c.createdAt)) &&
    param.createdAtTo.all (fun t => decide (c.createdAt ≤ t))

/-- The cluster belongs to an environment of that name. -/
def inEnvironment (name : String) (c : Cluster) : Bool :=
  d.environments.any fun e => decide (e.environmentID = c.environmentID ∧ e.environmentName = name)

/-- The clusters that satisfy every given parameter. -/
def satisfying : List Cluster :=
  d.clusters.filter fun c => param.Fits c && param.environment.all fun name => inEnvironment d name c

/-- The answer is a page of the satisfying clusters in the order asked for, with their number. -/
def Exact (data : List ConsolePostCluster.ClusterInfo) (info : MetaPagination) : Prop :=
  (∃ l, Arranged (clustersQuery w.T w.collation (param.request none) d).order
      (satisfying param d) l ∧
    data.map ConsolePostCluster.ClusterInfo.id =
      (page (param.limit.getD defaultLimit) (param.offset.getD 0) l).map Cluster.clusterID) ∧
    info.count = (satisfying param d).length

/-- No nil pointer is dereferenced, and the clusters are exact or an error is returned. -/
def ExactAndSafe : Prop :=
  match handle w param d with
  | .nilDereference => False
  | .badRequest => True
  | .ok data info => Exact w param d data info

def ListingFails (environmentID : Option ℤ) : Prop :=
  (w.fails .getClusters || !param.accepted) = true ∨
    ∃ c ∈ listedClusters w param d environmentID,
      w.fails (.getClusterServers c.clusterID) = true ∨
        w.fails (.getEnvironment c.environmentID) = true

def EnvironmentResolved : Prop :=
  match param.environment with
  | none => True
  | some name =>
    match getEnvironmentByName w d name with
    | none => ListingFails w param d none ∨
        ∀ c ∈ d.clusters, param.Fits c = true → inEnvironment d name c = true
    | some none => False
    | some (some e) => ListingFails w param d (some e.environmentID) ∨
        ∀ c ∈ d.clusters, param.Fits c = true → inEnvironment d name c = true →
          c.environmentID = e.environmentID

variable {w param d}

/-! ## The clusters of a page -/

theorem selects_request (id : Option ℤ) (c : Cluster) :
    (param.request id).selects c =
      (param.Fits c && id.all fun i => decide (c.environmentID = i)) := by
  rw [Bool.eq_iff_iff]
  simp only [GetClustersReq.selects, GetClustersParams.Fits, GetClustersParams.request,
    Bool.and_eq_true]
  tauto

theorem mem_listed {id : Option ℤ} {c : Cluster} (h : c ∈ listedClusters w param d id) :
    c ∈ d.clusters := by
  obtain ⟨n, hn, -⟩ := mem_page_getElem.mp h
  have hrow := (w.arranged _).perm.mem_iff.mp (List.mem_of_getElem? hn)
  exact List.mem_of_mem_filter hrow

def Unreadable (w : Reads) (c : Cluster) : Prop :=
  w.fails (.getClusterServers c.clusterID) = true ∨
    w.fails (.getEnvironment c.environmentID) = true

theorem getEnvironment_of_cluster {c : Cluster} (h : c ∈ d.clusters) :
    ∃ e, getEnvironment c.environmentID d = some e := by
  obtain ⟨e, he, hid⟩ := List.mem_map.mp (d.ok.clusters_environment_fkey c h)
  exact Option.isSome_iff_exists.mp (List.find?_isSome.mpr ⟨e, he, decide_eq_true hid⟩)

def CacheReadable (w : Reads) (cache : List (ℤ × String)) : Prop :=
  ∀ id code, cache.lookup id = some code → w.fails (.getEnvironment id) = false

theorem getEnvironmentCode_spec {c : Cluster} (hc : c ∈ d.clusters) {cache : List (ℤ × String)}
    (hcache : CacheReadable w cache) :
    if w.fails (.getEnvironment c.environmentID) = true then
      getEnvironmentCode w d c.environmentID cache = none
    else ∃ code cache', getEnvironmentCode w d c.environmentID cache = some (code, cache') ∧
      CacheReadable w cache' := by
  cases hlookup : cache.lookup c.environmentID with
  | some code =>
    rw [hcache _ code hlookup, if_neg Bool.false_ne_true]
    exact ⟨code, cache, by rw [getEnvironmentCode, hlookup], hcache⟩
  | none =>
    split
    · rename_i hfails
      rw [getEnvironmentCode, hlookup]
      simp only [hfails, if_true]
    · rename_i hfails
      obtain ⟨e, he⟩ := getEnvironment_of_cluster hc
      refine ⟨_, _, by rw [getEnvironmentCode, hlookup]; simp only [hfails, he]; rfl, ?_⟩
      intro id code hid
      rw [List.lookup_cons] at hid
      split at hid
      · rename_i heq
        rw [beq_iff_eq.mp heq]
        exact Bool.eq_false_iff.mpr hfails
      · exact hcache id code hid

theorem convertClusters_spec (project : Project) (clusters : List Cluster)
    (hclusters : clusters ⊆ d.clusters) {cache : List (ℤ × String)}
    (hcache : CacheReadable w cache) :
    ((∃ c ∈ clusters, Unreadable w c) → convertClusters w d project clusters cache = none) ∧
      ((¬ ∃ c ∈ clusters, Unreadable w c) → ∃ data,
        convertClusters w d project clusters cache = some data ∧
          data.map ConsolePostCluster.ClusterInfo.id = clusters.map Cluster.clusterID) := by
  induction clusters generalizing cache with
  | nil => simp [convertClusters]
  | cons c cs ih =>
    have hc : c ∈ d.clusters := hclusters List.mem_cons_self
    have hcs : cs ⊆ d.clusters := fun x hx => hclusters (List.mem_cons_of_mem c hx)
    have hcode := getEnvironmentCode_spec hc hcache
    rw [List.exists_mem_cons_iff, convertClusters]
    by_cases hservers : w.fails (.getClusterServers c.clusterID) = true
    · rw [if_pos hservers]
      exact ⟨fun _ => rfl, fun h => absurd (Or.inl (Or.inl hservers)) h⟩
    · rw [if_neg hservers]
      by_cases henv : w.fails (.getEnvironment c.environmentID) = true
      · rw [if_pos henv] at hcode
        rw [hcode]
        exact ⟨fun _ => rfl, fun h => absurd (Or.inl (Or.inr henv)) h⟩
      · rw [if_neg henv] at hcode
        obtain ⟨code, cache', hcode, hcache'⟩ := hcode
        obtain ⟨hbad, hgood⟩ := ih hcs hcache'
        have hreadable : ¬ Unreadable w c := fun h => h.elim hservers henv
        rw [hcode, Option.bind_some]
        constructor
        · intro h
          rw [hbad (h.resolve_left hreadable), Option.map_none]
        · intro h
          obtain ⟨data, hdata, hids⟩ := hgood fun hrest => h (Or.inr hrest)
          rw [hdata, Option.map_some]
          refine ⟨_, rfl, ?_⟩
          rw [List.map_cons, List.map_cons, hids]
          rfl

/-! ## The answer -/

theorem handle_listing {project : Project} {id : Option ℤ}
    (hproject : (if w.fails .getProject then none else getProject param.projectID d) = some project)
    (hid : environmentID w param d = some id) :
    (ListingFails w param d id → handle w param d = .badRequest) ∧
      (¬ ListingFails w param d id → ∃ data,
        handle w param d = .ok data ⟨param.limit.getD defaultLimit, param.offset.getD 0,
          (clustersQuery w.T w.collation (param.request id) d).count⟩ ∧
        data.map ConsolePostCluster.ClusterInfo.id =
          (listedClusters w param d id).map Cluster.clusterID) := by
  have hcache : CacheReadable w [] := fun id code h => by cases h
  obtain ⟨hbad, hgood⟩ := convertClusters_spec project (listedClusters w param d id)
    (fun c hc => mem_listed hc) hcache
  rw [handle, hproject, hid]
  by_cases hlist : (w.fails .getClusters || !param.accepted) = true
  · simp only [hlist, if_true, implies_true, true_and]
    exact fun h => absurd (Or.inl hlist) h
  · simp only [hlist, Bool.false_eq_true, if_false]
    constructor
    · intro h
      rw [hbad (h.resolve_left hlist)]
    · intro h
      obtain ⟨data, hdata, hids⟩ := hgood fun hrest => h (Or.inr hrest)
      rw [hdata]
      exact ⟨data, rfl, hids⟩

section Filters

variable {β : Type} {p q : β → Bool} {rows : List β} (himp : ∀ x ∈ rows, p x = true → q x = true)
include himp

theorem filter_eq_iff : rows.filter p = rows.filter q ↔ ∀ x ∈ rows, q x = true → p x = true := by
  constructor
  · intro h x hx hq
    have hmem : x ∈ rows.filter p := h ▸ List.mem_filter.mpr ⟨hx, hq⟩
    exact (List.mem_filter.mp hmem).2
  · intro h
    apply List.filter_congr
    intro x hx
    exact Bool.eq_iff_iff.mpr ⟨himp x hx, h x hx⟩

/-- A stronger filter that keeps as many rows is the same filter. -/
theorem filter_length_iff :
    (rows.filter p).length = (rows.filter q).length ↔ rows.filter p = rows.filter q := by
  have hsame : rows.filter p = (rows.filter q).filter p := by
    rw [List.filter_filter]
    apply List.filter_congr
    intro x hx
    cases hp : p x with
    | true => simp [himp x hx hp]
    | false => simp
  constructor
  · intro hlength
    rw [hsame] at hlength ⊢
    exact List.filter_sublist.eq_of_length hlength
  · exact congrArg List.length

end Filters

/-- An answer is exact when its where clause selects the satisfying clusters, and then only if it
selects as many. -/
theorem exact_of_same {id : Option ℤ} {data : List ConsolePostCluster.ClusterInfo}
    {info : MetaPagination}
    (hdata : data.map ConsolePostCluster.ClusterInfo.id =
      (listedClusters w param d id).map Cluster.clusterID)
    (hcount : info.count = (clustersQuery w.T w.collation (param.request id) d).count)
    (hsame : (clustersQuery w.T w.collation (param.request id) d).rows = satisfying param d) :
    Exact w param d data info := by
  have harranged := w.arranged (clustersQuery w.T w.collation (param.request id) d)
  rw [hsame] at harranged
  refine ⟨⟨_, harranged, hdata⟩, ?_⟩
  rw [hcount, ← hsame]
  rfl

theorem exactAndSafe_listing {project : Project} {id : Option ℤ}
    (hproject : (if w.fails .getProject then none else getProject param.projectID d) = some project)
    (hid : environmentID w param d = some id)
    (hcomparable :
      (clustersQuery w.T w.collation (param.request id) d).rows.length =
          (satisfying param d).length ↔
        (clustersQuery w.T w.collation (param.request id) d).rows = satisfying param d) :
    ExactAndSafe w param d ↔ ListingFails w param d id ∨
      (clustersQuery w.T w.collation (param.request id) d).rows = satisfying param d := by
  obtain ⟨hbad, hgood⟩ := handle_listing hproject hid
  rw [ExactAndSafe]
  by_cases hfails : ListingFails w param d id
  · rw [hbad hfails]
    simp [hfails]
  · obtain ⟨data, hhandle, hids⟩ := hgood hfails
    rw [hhandle]
    simp only [hfails, false_or]
    constructor
    · intro hexact
      exact hcomparable.mp hexact.2
    · exact exact_of_same hids rfl

theorem rows_request (id : Option ℤ) :
    (clustersQuery w.T w.collation (param.request id) d).rows =
      d.clusters.filter fun c => param.Fits c && id.all fun i => decide (c.environmentID = i) :=
  List.filter_congr fun c _ => selects_request id c

theorem exactAndSafe_unfiltered {project : Project}
    (hproject : (if w.fails .getProject then none else getProject param.projectID d) = some project)
    (hid : environmentID w param d = some none) :
    ExactAndSafe w param d ↔ ListingFails w param d none ∨
      ∀ c ∈ d.clusters, param.Fits c = true →
        (param.environment.all fun name => inEnvironment d name c) = true := by
  have himp : ∀ c ∈ d.clusters,
      (param.Fits c && param.environment.all fun name => inEnvironment d name c) = true →
        (param.Fits c && (none : Option ℤ).all fun i => decide (c.environmentID = i)) = true := by
    intro c _ hc
    rw [Option.all_none, Bool.and_true]
    exact (Bool.and_eq_true_iff.mp hc).1
  rw [exactAndSafe_listing hproject hid, rows_request, satisfying, eq_comm, filter_eq_iff himp]
  · apply or_congr_right
    simp only [Option.all_none, Bool.and_true, Bool.and_eq_true]
    exact forall₂_congr fun c _ => ⟨fun h hc => (h hc).2, fun h hc => ⟨hc, h hc⟩⟩
  · rw [rows_request, satisfying, eq_comm, filter_length_iff himp, eq_comm]

theorem exactAndSafe_filtered {project : Project} {name : String} {e : Environment}
    (hproject : (if w.fails .getProject then none else getProject param.projectID d) = some project)
    (hname : param.environment = some name) (he : e ∈ d.environments)
    (hename : e.environmentName = name)
    (hid : environmentID w param d = some (some e.environmentID)) :
    ExactAndSafe w param d ↔ ListingFails w param d (some e.environmentID) ∨
      ∀ c ∈ d.clusters, param.Fits c = true → inEnvironment d name c = true →
        c.environmentID = e.environmentID := by
  have himp : ∀ c ∈ d.clusters,
      (param.Fits c &&
        (some e.environmentID).all fun i => decide (c.environmentID = i)) = true →
      (param.Fits c && param.environment.all fun name => inEnvironment d name c) = true := by
    intro c _ hc
    simp only [Option.all_some, Bool.and_eq_true, decide_eq_true_eq] at hc
    rw [hname, Option.all_some, hc.1, Bool.true_and, inEnvironment, List.any_eq_true]
    exact ⟨e, he, decide_eq_true ⟨hc.2.symm, hename⟩⟩
  rw [exactAndSafe_listing hproject hid, rows_request, satisfying, filter_eq_iff himp]
  · apply or_congr_right
    simp only [hname, Option.all_some, Bool.and_eq_true, decide_eq_true_eq]
    exact forall₂_congr fun c _ =>
      ⟨fun h hfits hin => (h ⟨hfits, hin⟩).2, fun h hc => ⟨hc.1, h hc.1 hc.2⟩⟩
  · rw [rows_request, satisfying, filter_length_iff himp]

theorem mem_of_getEnvironmentByName {name : String} {e : Environment}
    (h : getEnvironmentByName w d name = some (some e)) :
    e ∈ d.environments ∧ e.environmentName = name := by
  rw [getEnvironmentByName] at h
  split at h
  · cases h
  · have hmem := List.mem_of_mem_head? (Option.mem_def.mpr (Option.some.inj h))
    obtain ⟨he, hname⟩ := List.mem_filter.mp ((w.environmentOrder_perm _).mem_iff.mp hmem)
    exact ⟨he, of_decide_eq_true hname⟩

/-- The answer is exact and safe when the project cannot be read, or when the environment's name
is resolved as if it had been compared with each cluster's own. -/
theorem exactAndSafe_iff (w : Reads) (param : GetClustersParams) (d : Db) :
    ExactAndSafe w param d ↔
      (w.fails .getProject = true ∨ getProject param.projectID d = none) ∨
        EnvironmentResolved w param d := by
  cases hproject : if w.fails .getProject then none else getProject param.projectID d with
  | none =>
    have hleft : w.fails .getProject = true ∨ getProject param.projectID d = none := by
      cases hfails : w.fails .getProject with
      | true => exact Or.inl rfl
      | false => exact Or.inr (by rwa [hfails, if_neg Bool.false_ne_true] at hproject)
    rw [ExactAndSafe, handle, hproject]
    simp only [hleft, true_or]
  | some project =>
    have hleft : ¬ (w.fails .getProject = true ∨ getProject param.projectID d = none) := by
      rintro (hfails | hnone)
      · rw [hfails, if_pos rfl] at hproject
        cases hproject
      · rw [hnone, ite_self] at hproject
        cases hproject
    simp only [hleft, false_or, EnvironmentResolved]
    cases hname : param.environment with
    | none =>
      rw [exactAndSafe_unfiltered hproject (by rw [environmentID, hname]), hname]
      simp
    | some name =>
      dsimp only
      cases hlookup : getEnvironmentByName w d name with
      | none =>
        have hid : environmentID w param d = some none := by
          simp only [environmentID, hname, hlookup]
        rw [exactAndSafe_unfiltered hproject hid, hname]
        simp only [Option.all_some]
      | some environment =>
        cases environment with
        | none =>
          have hid : environmentID w param d = none := by
            simp only [environmentID, hname, hlookup, Option.map_none]
          simp only [ExactAndSafe, handle, hproject, hid]
        | some e =>
          have hid : environmentID w param d = some (some e.environmentID) := by
            simp only [environmentID, hname, hlookup, Option.map_some]
          obtain ⟨he, hename⟩ := mem_of_getEnvironmentByName hlookup
          exact exactAndSafe_filtered hproject hname he hename hid

/-! ## A name that is not there -/

def plainReads : Reads where
  pg := acceptAll
  T := noStamps
  collation := .ofOrder String
  fails := fun _ => false
  environmentOrder := id
  environmentOrder_perm := fun _ => List.Perm.refl _
  arrange := fun q => arrangement q.order q.rows
  arranged := fun q => arranged_arrangement q.order q.rows

theorem unknown_environment_dereferenced :
    ¬ ExactAndSafe plainReads { projectID := 1, environment := some "qa" } deploying := by
  have hhandle : handle plainReads { projectID := 1, environment := some "qa" } deploying =
      .nilDereference := by rfl
  rw [ExactAndSafe, hhandle]
  exact id

end ConsoleClusterFilters
