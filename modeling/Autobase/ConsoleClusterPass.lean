import Autobase.PagedReads
import Autobase.ConsoleStatements
import Autobase.TransitionRuns

/-! # The pass of the cluster watcher

A pass asks for the projects once and then for the clusters of each project page by page. The
offset of a page counts rows, and other requests change the table between two pages. -/
namespace ConsoleClusterPass

open ConsoleSchema ConsoleStatements RowTables TransitionRuns PagedReads

/-! ## Listings -/

def defaultLimit : ℕ := 20

structure MetaPagination where
  limit : ℕ
  offset : ℕ
  count : ℕ

def getProjects (limit offset : Option ℕ) (d : Db) : List Project × MetaPagination :=
  let curLimit := limit.getD defaultLimit
  let curOffset := offset.getD 0
  (page curLimit curOffset (orderBy Project.projectID d.projects),
    ⟨curLimit, curOffset, d.projects.length⟩)

/-- A request without `sort_by`. -/
structure GetClustersReq where
  projectID : ℤ
  name : Option String := none
  status : Option String := none
  location : Option String := none
  environmentID : Option ℤ := none
  serverCount : Option ℤ := none
  postgresVersion : Option ℤ := none
  createdAtFrom : Option ℕ := none
  createdAtTo : Option ℕ := none
  limit : Option ℕ := none
  offset : Option ℕ := none

/-- The where clause. A column without a value equals nothing. -/
def GetClustersReq.selects (req : GetClustersReq) (c : Cluster) : Bool :=
  decide (c.projectID = req.projectID) && c.deletedAt.isNone &&
    req.name.all (fun name => decide (c.clusterName = name)) &&
    req.status.all (fun status => decide (c.clusterStatus = status)) &&
    req.location.all (fun location => decide (c.clusterLocation = some location)) &&
    req.environmentID.all (fun id => decide (c.environmentID = id)) &&
    req.serverCount.all (fun n => decide (c.serverCount = n)) &&
    req.postgresVersion.all (fun n => decide (c.postgresVersion = n)) &&
    req.createdAtFrom.all (fun t => decide (t ≤ c.createdAt)) &&
    req.createdAtTo.all (fun t => decide (c.createdAt ≤ t))

def getClusters (req : GetClustersReq) (d : Db) : List Cluster × MetaPagination :=
  let curLimit := req.limit.getD defaultLimit
  let curOffset := req.offset.getD 0
  let rows := d.clusters.filter req.selects
  (page curLimit curOffset (orderBy Cluster.clusterID rows), ⟨curLimit, curOffset, rows.length⟩)

/-! ## One project -/

/-- The state of the loop of `handleProject`: `handled` are the clusters given to
`HandleCluster`. -/
structure Loop where
  offset : ℕ
  handled : List Cluster
  returned : Bool

def Loop.start (handled : List Cluster) : Loop := ⟨0, handled, false⟩

/-- What happens in a round of the loop. An answer may be followed by a cancellation, after
which the semaphore lets no further cluster through. -/
inductive Round where
  | cancelled
  | failed
  | answered (acquired : Option ℕ)

/-- One round of the loop, for a page of 100 clusters. -/
def round (pr : Project) (d : Db) (s : Loop) : Round → Loop
  | .cancelled => { s with returned := true }
  | .failed => s
  | .answered acquired =>
    let clusters := (getClusters
      { projectID := pr.projectID, limit := some 100, offset := some s.offset } d).1
    if clusters.isEmpty then { s with returned := true }
    else
      match acquired.filter fun k => decide (k < clusters.length) with
      | some k => { s with handled := s.handled ++ clusters.take k, returned := true }
      | none => { s with handled := s.handled ++ clusters, offset := s.offset + 100 }

/-- The loop from its n-th round on; it ends only by returning. -/
def handleProject (rounds : ℕ → Round) (pr : Project) (d : Db) : ℕ → ℕ → Loop → Option Loop
  | 0, _, _ => none
  | fuel + 1, n, s =>
    let s' := round pr d s (rounds n)
    if s'.returned then some s' else handleProject rounds pr d fuel (n + 1) s'

/-! ## All projects -/

/-- What a pass meets with. -/
structure Pass where
  getProjectsFails : Bool
  rounds : Project → ℕ → Round

def handleProjects (p : Pass) (d : Db) (fuel : ℕ) :
    List Project → List Cluster → Option (List Cluster)
  | [], handled => some handled
  | pr :: prs, handled =>
    (handleProject (p.rounds pr) pr d fuel 0 (.start handled)).bind fun s =>
      handleProjects p d fuel prs s.handled

/-- The clusters that are handled in a pass. -/
def doWork (p : Pass) (fuel : ℕ) (d : Db) : Option (List Cluster) :=
  if p.getProjectsFails then some []
  else handleProjects p d fuel (getProjects (some 1000) (some 0) d).1 []

/-- Every call of the storage succeeds and nothing is cancelled. -/
def undisturbed : Pass := ⟨false, fun _ _ => .answered none⟩

/-- Every cluster that is not deleted is handled once, and no other. -/
def HandledOnce (d : Db) (handled : List Cluster) : Prop :=
  handled.Nodup ∧ ∀ c, c ∈ handled ↔ c ∈ d.clusters ∧ c.deletedAt = none

/-! ## What is read -/

def isLive (projectID : ℤ) (c : Cluster) : Bool :=
  decide (c.projectID = projectID) && c.deletedAt.isNone

/-- The clusters of a project that are not deleted. -/
def live (projectID : ℤ) (d : Db) : List Cluster := d.clusters.filter (isLive projectID)

theorem mem_live {projectID : ℤ} {d : Db} {c : Cluster} :
    c ∈ live projectID d ↔ c ∈ d.clusters ∧ c.projectID = projectID ∧ c.deletedAt = none := by
  simp [live, isLive]

theorem nodup_live (projectID : ℤ) (d : Db) :
    ((live projectID d).map Cluster.clusterID).Nodup :=
  d.ok.clusters_pkey.sublist (List.filter_sublist.map _)

theorem getClusters_page (projectID : ℤ) (limit offset : ℕ) (d : Db) :
    (getClusters { projectID, limit := some limit, offset := some offset } d).1 =
      page limit offset (orderBy Cluster.clusterID (live projectID d)) := by
  have hselects : (GetClustersReq.selects
      { projectID, limit := some limit, offset := some offset }) = isLive projectID := by
    funext c
    simp [GetClustersReq.selects, isLive]
  rw [getClusters, hselects]
  rfl

variable {pr : Project} {d : Db} {s : Loop}

theorem round_answered (pr : Project) (d : Db) (s : Loop) :
    round pr d s (.answered none) =
      if (live pr.projectID d).length ≤ s.offset then { s with returned := true }
      else { s with
        handled := s.handled ++ page 100 s.offset (orderBy Cluster.clusterID (live pr.projectID d))
        offset := s.offset + 100 } := by
  simp only [round, getClusters_page, List.isEmpty_iff, page_eq_nil (Nat.succ_pos 99),
    length_orderBy, Option.filter_none]

/-- The loop ends, and then every row from the offset on has been handled. -/
theorem handleProject_answered (pr : Project) (d : Db) (fuel n : ℕ) (s : Loop)
    (hs : s.returned = false)
    (hfuel : (live pr.projectID d).length - s.offset < fuel) :
    ∃ offset, handleProject (fun _ => .answered none) pr d fuel n s =
      some ⟨offset, s.handled ++ (orderBy Cluster.clusterID (live pr.projectID d)).drop s.offset,
        true⟩ := by
  induction fuel generalizing n s with
  | zero => exact absurd hfuel (Nat.not_lt_zero _)
  | succ fuel ih =>
    rw [handleProject, round_answered]
    by_cases hend : (live pr.projectID d).length ≤ s.offset
    · refine ⟨s.offset, ?_⟩
      rw [if_pos hend, if_pos rfl, List.drop_eq_nil_of_le (by rw [length_orderBy]; exact hend),
        List.append_nil]
    · obtain ⟨offset, hrest⟩ := ih (n + 1)
        ⟨s.offset + 100, s.handled ++ page 100 s.offset
          (orderBy Cluster.clusterID (live pr.projectID d)), false⟩ rfl (by dsimp only; omega)
      refine ⟨offset, ?_⟩
      rw [if_neg hend, if_neg (by simp [hs])]
      simp only [hs]
      rw [hrest, List.append_assoc, page, ← List.drop_drop, List.take_append_drop]

/-- With enough rounds a pass handles the live clusters of the projects it was given. -/
theorem handleProjects_undisturbed (d : Db) {fuel : ℕ} (hfuel : d.clusters.length < fuel)
    (prs : List Project) (handled : List Cluster) :
    handleProjects undisturbed d fuel prs handled =
      some (handled ++ prs.flatMap fun pr => orderBy Cluster.clusterID (live pr.projectID d)) := by
  induction prs generalizing handled with
  | nil => simp [handleProjects]
  | cons pr prs ih =>
    have hlive : (live pr.projectID d).length ≤ d.clusters.length := List.length_filter_le _ _
    obtain ⟨offset, hloop⟩ := handleProject_answered pr d fuel 0 (.start handled) rfl
      (by omega)
    rw [handleProjects, undisturbed, hloop, Option.bind_some]
    have hrest := ih (handled ++ orderBy Cluster.clusterID (live pr.projectID d))
    rw [List.flatMap_cons, ← List.append_assoc]
    exact hrest

/-- The clusters of a pass that nothing disturbs. -/
def listed (d : Db) : List Cluster :=
  (page 1000 0 (orderBy Project.projectID d.projects)).flatMap fun pr =>
    orderBy Cluster.clusterID (live pr.projectID d)

theorem doWork_undisturbed (d : Db) {fuel : ℕ} (hfuel : d.clusters.length < fuel) :
    doWork undisturbed fuel d = some (listed d) := by
  rw [doWork, if_neg (by simp [undisturbed]), handleProjects_undisturbed d hfuel, List.nil_append]
  rfl

theorem mem_listed {c : Cluster} : c ∈ listed d ↔ c ∈ d.clusters ∧ c.deletedAt = none ∧
    rank Project.projectID d.projects c.projectID < 1000 := by
  simp only [listed, List.mem_flatMap, mem_orderBy, mem_live, mem_page d.ok.projects_pkey]
  constructor
  · rintro ⟨pr, ⟨-, -, hrank⟩, hc, hproject, hdeleted⟩
    rw [← hproject] at hrank
    exact ⟨hc, hdeleted, by simpa using hrank⟩
  · rintro ⟨hc, hdeleted, hrank⟩
    obtain ⟨pr, hpr, hid⟩ := List.mem_map.mp (d.ok.clusters_project_fkey c hc)
    refine ⟨pr, ⟨hpr, Nat.zero_le _, ?_⟩, hc, hid.symm, hdeleted⟩
    rw [hid]
    simpa using hrank

theorem nodup_orderBy_live (projectID : ℤ) (d : Db) :
    (orderBy Cluster.clusterID (live projectID d)).Nodup :=
  (orderBy_perm _ _).nodup_iff.mpr (List.Nodup.of_map _ (nodup_live projectID d))

theorem nodup_listed (d : Db) : (listed d).Nodup := by
  rw [listed, List.nodup_flatMap]
  refine ⟨fun pr _ => nodup_orderBy_live pr.projectID d, ?_⟩
  have hprojects : (page 1000 0 (orderBy Project.projectID d.projects)).Pairwise
      fun a b => a.projectID < b.projectID :=
    (orderBy_sorted d.ok.projects_pkey).sublist
      ((List.take_sublist _ _).trans (List.drop_sublist _ _))
  apply hprojects.imp
  intro a b hab c ha hb
  have hca := (mem_live.mp (mem_orderBy.mp ha)).2.1
  have hcb := (mem_live.mp (mem_orderBy.mp hb)).2.1
  omega

/-- A pass that nothing disturbs handles every cluster once exactly when each live cluster
belongs to one of the first thousand projects. -/
theorem every_cluster_handled_iff (d : Db) :
    ∃ handled, (∃ rounds, ∀ fuel ≥ rounds, doWork undisturbed fuel d = some handled) ∧
      (HandledOnce d handled ↔ ∀ c ∈ d.clusters, c.deletedAt = none →
        (d.projects.countP fun p => decide (p.projectID < c.projectID)) < 1000) := by
  refine ⟨listed d, ⟨d.clusters.length + 1, fun fuel h => doWork_undisturbed d h⟩, ?_⟩
  constructor
  · rintro ⟨-, hmem⟩ c hc hdeleted
    exact (mem_listed.mp ((hmem c).mpr ⟨hc, hdeleted⟩)).2.2
  · intro hfirst
    refine ⟨nodup_listed d, fun c => ?_⟩
    rw [mem_listed]
    constructor
    · rintro ⟨hc, hdeleted, -⟩
      exact ⟨hc, hdeleted⟩
    · rintro ⟨hc, hdeleted⟩
      exact ⟨hc, hdeleted, hfirst c hc hdeleted⟩

def numberedProjects (n : ℕ) : List Project :=
  (List.range n).map fun i : ℕ => ⟨i + 1, toString i⟩

theorem sorted_numberedProjects (n : ℕ) :
    (numberedProjects n).Pairwise fun a b => a.projectID < b.projectID := by
  rw [numberedProjects, List.pairwise_map]
  apply List.pairwise_lt_range.imp
  intro i j hij
  simpa using hij

theorem last_numberedProjects (n : ℕ) :
    (numberedProjects (n + 1))[n]? = some ⟨n + 1, toString n⟩ := by
  simp [numberedProjects]

/-- Many projects, and a cluster in the last of them. -/
def lastProjectUsed (n : ℕ) : Db where
  toTables := { migrated.toTables with
    projects := numberedProjects (n + 1)
    clusters := [{ deployRequest.row 1 0 with projectID := n + 1 }]
    nextClusterID := 2 }
  ok := { migrated.ok with
    projects_pkey :=
      List.pairwise_map.mpr ((sorted_numberedProjects (n + 1)).imp fun hab => hab.ne)
    clusters_pkey := List.nodup_singleton _
    clusters_name_key := List.nodup_singleton _
    clusters_issued := by simp [deployRequest, CreateClusterReq.row]
    clusters_project_fkey := by
      rw [List.forall_mem_singleton]
      exact List.mem_map_of_mem (List.mem_of_getElem? (last_numberedProjects n))
    clusters_environment_fkey := by
      simp [deployRequest, CreateClusterReq.row, migrated]
    clusters_secret_fkey := by simp [deployRequest, CreateClusterReq.row]
    servers_cluster_fkey := by simp [migrated]
    operations_cluster_fkey := by simp [migrated]
    operations_project_fkey := by simp [migrated] }

theorem not_handledOnce_lastProject {n : ℕ} (hn : 1000 ≤ n) :
    ¬ HandledOnce (lastProjectUsed n) (listed (lastProjectUsed n)) := by
  rintro ⟨-, hmem⟩
  have hcluster := (hmem { deployRequest.row 1 0 with projectID := n + 1 }).mpr
    ⟨List.mem_singleton.mpr rfl, rfl⟩
  have hfirst := (mem_listed.mp hcluster).2.2
  have hrank : rank Project.projectID (lastProjectUsed n).projects (n + 1) = n :=
    rank_getElem (sorted_numberedProjects _) (last_numberedProjects n)
  rw [hrank] at hfirst
  omega

theorem last_project_unwatched : ¬ ∃ handled,
    (∃ rounds, ∀ fuel ≥ rounds, doWork undisturbed fuel (lastProjectUsed 1000) = some handled) ∧
      HandledOnce (lastProjectUsed 1000) handled := by
  rintro ⟨handled, ⟨rounds, hwork⟩, honce⟩
  have hsame : handled = listed (lastProjectUsed 1000) := by
    apply Option.some.inj
    rw [← hwork (rounds + 2) (by omega)]
    exact doWork_undisturbed _ (show 1 < rounds + 2 by omega)
  exact not_handledOnce_lastProject (Nat.le_refl 1000) (hsame ▸ honce)

/-! ## A project whose clusters change -/

/-- One run of `handleProject` and the table it reads. -/
structure Scan where
  db : Db
  loop : Loop

inductive Event where
  | round (r : Round)
  | createCluster (req : CreateClusterReq) (now : ℕ)
  | deleteClusterSoft (clusterID : ℤ) (now : ℕ)

/-- A statement that fails leaves the table as it was. -/
def step (pg : Postgres) (pr : Project) (s : Scan) : Event → Scan
  | .round r => if s.loop.returned then s else { s with loop := round pr s.db s.loop r }
  | .createCluster req now =>
    { s with db := ((createCluster pg req now s.db).map Prod.snd).getD s.db }
  | .deleteClusterSoft clusterID now =>
    { s with db := (deleteClusterSoft pg clusterID now s.db).getD s.db }

def liveIDs (projectID : ℤ) (d : Db) : List ℤ := (live projectID d).map Cluster.clusterID

def handledIDs (s : Loop) : List ℤ := s.handled.map Cluster.clusterID

/-- Once the loop has returned, the clusters that were live all the time have been handled. -/
def Covers (start : Db) (pr : Project) (s : Scan) : Prop :=
  s.loop.returned = true → ∀ k ∈ liveIDs pr.projectID start, k ∈ liveIDs pr.projectID s.db →
    k ∈ handledIDs s.loop

instance (start : Db) (pr : Project) (s : Scan) : Decidable (Covers start pr s) :=
  inferInstanceAs (Decidable (_ → _))

/-- While the loop runs, no cluster is deleted that stands before the offset as long as one that
was live from the beginning stands at the offset or behind it. -/
def KeepsPlaces (start : Db) (pr : Project) (s : Scan) : Event → Prop
  | .deleteClusterSoft clusterID _ =>
    let keys := liveIDs pr.projectID s.db
    s.loop.returned = false → clusterID ∈ keys → rank id keys clusterID < s.loop.offset →
      ∀ k ∈ liveIDs pr.projectID start, k ∈ keys → rank id keys k < s.loop.offset
  | _ => True

instance (start : Db) (pr : Project) (s : Scan) : (e : Event) → Decidable (KeepsPlaces start pr s e)
  | .deleteClusterSoft _ _ => inferInstanceAs (Decidable (_ → _))
  | .round _ => inferInstanceAs (Decidable True)
  | .createCluster _ _ => inferInstanceAs (Decidable True)

variable {pg : Postgres} {start d' : Db} {projectID : ℤ}

theorem liveIDs_issued {k : ℤ} (hk : k ∈ liveIDs projectID d) : k < d.nextClusterID := by
  obtain ⟨c, hc, rfl⟩ := List.mem_map.mp hk
  exact d.ok.clusters_issued c (mem_live.mp hc).1

theorem liveIDs_createCluster (projectID : ℤ) {req : CreateClusterReq} {now : ℕ} {c : Cluster}
    (h : createCluster pg req now d = some (c, d')) : liveIDs projectID d' =
      liveIDs projectID d ++ if req.projectID = projectID then [d.nextClusterID] else [] := by
  obtain ⟨-, -, ht⟩ := createCluster_eq_some.mp h
  have hclusters : d'.clusters = d.clusters ++ [req.row d.nextClusterID now] := by rw [ht]
  rw [liveIDs, live, hclusters, List.filter_append, List.map_append]
  by_cases hp : req.projectID = projectID <;>
    simp [liveIDs, live, isLive, CreateClusterReq.row, hp]

theorem liveIDs_deleteClusterSoft (projectID : ℤ) {clusterID : ℤ} {now : ℕ}
    (h : deleteClusterSoft pg clusterID now d = some d') : liveIDs projectID d' =
      (liveIDs projectID d).filter fun k => decide (k ≠ clusterID) := by
  have ht := commit_eq_some.mp h
  have hclusters : d'.clusters = updateWhere (fun c => decide (c.clusterID = clusterID))
    (softDeleted pg now) d.clusters := by rw [ht]
  simp only [liveIDs, live, hclusters]
  induction d.clusters with
  | nil => rfl
  | cons c rows ih =>
    simp only [updateWhere, List.map_cons] at ih ⊢
    by_cases hid : c.clusterID = clusterID
    · rw [if_pos (by simpa using hid), List.filter_cons_of_neg (by simp [isLive, softDeleted]), ih]
      by_cases hlive : isLive projectID c = true
      · rw [List.filter_cons_of_pos hlive, List.map_cons, List.filter_cons_of_neg (by simp [hid])]
      · rw [List.filter_cons_of_neg hlive]
    · rw [if_neg (by simpa using hid)]
      by_cases hlive : isLive projectID c = true
      · rw [List.filter_cons_of_pos hlive, List.filter_cons_of_pos hlive, List.map_cons,
          List.map_cons, List.filter_cons_of_pos (by simpa using hid), ih]
      · rw [List.filter_cons_of_neg hlive, List.filter_cons_of_neg hlive, ih]

/-- What every step keeps. -/
structure Kept (start : Db) (pr : Project) (s : Scan) : Prop where
  issued : start.nextClusterID ≤ s.db.nextClusterID
  scanned : s.loop.returned = false →
    Scanned {k | k ∈ liveIDs pr.projectID start} {k | k ∈ handledIDs s.loop}
      (liveIDs pr.projectID s.db) s.loop.offset
  covers : Covers start pr s

theorem kept_start (pr : Project) (d : Db) : Kept d pr ⟨d, .start []⟩ where
  issued := Int.le_refl _
  scanned := fun _ => scanned_zero
  covers := fun h => nomatch h

/-- A page holds the keys whose ranks it spans. -/
theorem mem_page_live {limit offset : ℕ} {k : ℤ} (hk : k ∈ liveIDs projectID d)
    (hfrom : offset ≤ rank id (liveIDs projectID d) k)
    (hto : rank id (liveIDs projectID d) k < offset + limit) :
    k ∈ (page limit offset (orderBy Cluster.clusterID (live projectID d))).map
      Cluster.clusterID := by
  obtain ⟨c, hc, rfl⟩ := List.mem_map.mp hk
  rw [liveIDs, rank_map] at hfrom hto
  exact List.mem_map_of_mem ((mem_page (nodup_live projectID d)).mpr ⟨hc, hfrom, hto⟩)

theorem kept_round {s : Scan} (h : Kept start pr s) :
    Kept start pr (step pg pr s (.round (.answered none))) := by
  rw [step]
  split
  · exact h
  · rename_i hrunning
    have hrunning : s.loop.returned = false := by simpa using hrunning
    have hscanned := h.scanned hrunning
    rw [round_answered]
    split
    · rename_i hend
      refine ⟨h.issued, (fun hr => nomatch hr), fun _ k hold hk => ?_⟩
      have hrank : rank id (liveIDs pr.projectID s.db) k < (live pr.projectID s.db).length := by
        have hlt := rank_lt_length id hk
        rwa [liveIDs, List.length_map] at hlt
      exact hscanned k hold hk (Nat.lt_of_lt_of_le hrank hend)
    · refine ⟨h.issued, fun _ => ?_, fun hr => absurd hr (by simp [hrunning])⟩
      apply hscanned.read
      · intro k hk
        rw [Set.mem_ofPred_eq, handledIDs, List.map_append]
        exact List.mem_append_left _ hk
      · intro k hk hfrom hto
        rw [Set.mem_ofPred_eq, handledIDs, List.map_append]
        exact List.mem_append_right _ (mem_page_live hk hfrom hto)

theorem kept_createCluster {s : Scan} (h : Kept start pr s) (req : CreateClusterReq) (now : ℕ) :
    Kept start pr (step pg pr s (.createCluster req now)) := by
  rw [step]
  cases hcreate : createCluster pg req now s.db with
  | none => exact h
  | some r =>
    obtain ⟨c, d'⟩ := r
    have hids := liveIDs_createCluster pr.projectID hcreate
    have hnext : d'.nextClusterID = s.db.nextClusterID + 1 := by
      obtain ⟨-, -, ht⟩ := createCluster_eq_some.mp hcreate
      rw [ht]
    have hnew : ∀ k ∈ liveIDs pr.projectID d',
        k ∈ liveIDs pr.projectID s.db ∨ k ∉ liveIDs pr.projectID start := by
      intro k hk
      rw [hids] at hk
      rcases List.mem_append.mp hk with hk | hk
      · exact Or.inl hk
      · refine Or.inr fun hold => ?_
        have hissued := liveIDs_issued hold
        have hfresh : k = s.db.nextClusterID := by
          split at hk
          · exact List.mem_singleton.mp hk
          · cases hk
        have hbound := h.issued
        omega
    refine ⟨?_, fun hr => ?_, fun hr k hold hk => ?_⟩
    · have hbound := h.issued
      simp only [Option.map_some, Option.getD_some, hnext]
      omega
    · apply (h.scanned hr).insert
      · rw [Option.map_some, Option.getD_some, hids]
        exact List.sublist_append_left _ _
      · exact hnew
    · exact h.covers hr k hold ((hnew k hk).resolve_right (not_not_intro hold))

theorem kept_deleteClusterSoft {s : Scan} (h : Kept start pr s) {clusterID : ℤ} {now : ℕ}
    (hplaces : KeepsPlaces start pr s (.deleteClusterSoft clusterID now)) :
    Kept start pr (step pg pr s (.deleteClusterSoft clusterID now)) := by
  rw [step]
  cases hdelete : deleteClusterSoft pg clusterID now s.db with
  | none => exact h
  | some d' =>
    have hids := liveIDs_deleteClusterSoft pr.projectID hdelete
    have hnext : d'.nextClusterID = s.db.nextClusterID := by
      have ht := commit_eq_some.mp hdelete
      rw [ht]
    refine ⟨?_, fun hr => ?_, fun hr k hold hk => ?_⟩
    · rw [Option.getD_some, hnext]
      exact h.issued
    · rw [Option.getD_some, hids]
      apply (h.scanned hr).delete (nodup_live _ _)
      exact hplaces hr
    · rw [Option.getD_some, hids] at hk
      exact h.covers hr k hold (List.mem_of_mem_filter hk)

theorem kept_step (s : Scan) (e : Event) (h : Kept start pr s)
    (he : KeepsPlaces start pr s e ∧ ∀ r, e = .round r → r = .answered none) :
    Kept start pr (step pg pr s e) := by
  cases e with
  | round r =>
    obtain rfl := he.2 r rfl
    exact kept_round h
  | createCluster req now => exact kept_createCluster h req now
  | deleteClusterSoft clusterID now => exact kept_deleteClusterSoft h he.1

/-- A scan whose reads succeed handles every cluster that stays live, when no deletion moves one
of them from behind the offset to before it. -/
theorem live_clusters_handled (pg : Postgres) (pr : Project) (d : Db) (es : List Event)
    (hreads : ∀ e ∈ es, ∀ r, e = .round r → r = .answered none)
    (hplaces : Along (step pg pr) (KeepsPlaces d pr) ⟨d, .start []⟩ es) :
    ∀ s ∈ visited (step pg pr) ⟨d, .start []⟩ es, Covers d pr s := by
  intro s hs
  exact (visited_of_along kept_step (kept_start pr d) (hplaces.and_of_mem hreads) s hs).covers

/-! ## A deletion between two pages -/

def numberedClusters (n : ℕ) : List Cluster :=
  (List.range n).map fun i : ℕ =>
    { deployRequest.row (i + 1) 0 with clusterName := String.ofList (List.replicate i 'c') }

theorem sorted_numberedClusters (n : ℕ) :
    (numberedClusters n).Pairwise fun a b => a.clusterID < b.clusterID := by
  rw [numberedClusters, List.pairwise_map]
  apply List.pairwise_lt_range.imp
  intro i j hij
  simpa [CreateClusterReq.row] using hij

/-- Many clusters in the first project. -/
def manyClusters (n : ℕ) : Db where
  toTables := { migrated.toTables with
    clusters := numberedClusters n
    nextClusterID := n + 1 }
  ok := { migrated.ok with
    clusters_pkey :=
      List.pairwise_map.mpr ((sorted_numberedClusters n).imp fun hab => hab.ne)
    clusters_name_key := by
      rw [numberedClusters, List.map_map]
      apply List.Nodup.map _ List.nodup_range
      intro i j hij
      have hlength := congrArg (fun name : String => name.toList.length) hij
      simpa using hlength
    clusters_issued := by simp [numberedClusters, CreateClusterReq.row]
    clusters_project_fkey := by
      simp [numberedClusters, CreateClusterReq.row, deployRequest, migrated]
    clusters_environment_fkey := by
      simp [numberedClusters, CreateClusterReq.row, deployRequest, migrated]
    clusters_secret_fkey := by simp [numberedClusters, CreateClusterReq.row, deployRequest]
    servers_cluster_fkey := by simp [migrated]
    operations_cluster_fkey := by simp [migrated] }

theorem deleteClusterSoft_numbered (n : ℕ) (id : ℤ) :
    (deleteClusterSoft acceptAll id 0 (manyClusters n)).isSome := by
  apply deleteClusterSoft_isSome
  intro c hc hid c' hc' hname
  obtain ⟨i, -, rfl⟩ := List.mem_map.mp hc'
  have hletter : '_' ∈ ((softDeleted acceptAll 0 c).clusterName).toList := by
    simp [softDeleted]
  rw [← hname] at hletter
  simp at hletter

/-- Behind the first page a cluster is deleted before the second page is read. -/
def scanOfTwoPages : List Event :=
  [.round (.answered none), .deleteClusterSoft 101 0, .round (.answered none),
    .round (.answered none)]

theorem two_pages_covered :
    let s := run (step acceptAll ⟨1, "default"⟩) ⟨manyClusters 102, .start []⟩ scanOfTwoPages
    s.loop.returned = true ∧ liveIDs 1 s.db = (liveIDs 1 (manyClusters 102)).erase 101 ∧
      102 ∈ liveIDs 1 s.db ∧ Covers (manyClusters 102) ⟨1, "default"⟩ s := by
  obtain ⟨d', hdelete⟩ := Option.isSome_iff_exists.mp (deleteClusterSoft_numbered 102 101)
  have hids : liveIDs 1 d' = (liveIDs 1 (manyClusters 102)).erase 101 := by
    rw [liveIDs_deleteClusterSoft 1 hdelete]
    decide +kernel
  have hlength : (live 1 d').length = 101 := by
    rw [← List.length_map (f := Cluster.clusterID), ← liveIDs, hids]
    decide +kernel
  have hfirst : step acceptAll ⟨1, "default"⟩ ⟨manyClusters 102, .start []⟩
      (.round (.answered none)) = ⟨manyClusters 102,
        ⟨100, page 100 0 (orderBy Cluster.clusterID (live 1 (manyClusters 102))), false⟩⟩ := by
    rw [step, if_neg (by decide), round_answered, if_neg (by decide +kernel)]
    rfl
  have hdeleted : ∀ l, step acceptAll ⟨1, "default"⟩ ⟨manyClusters 102, l⟩
      (.deleteClusterSoft 101 0) = ⟨d', l⟩ := by
    intro l
    rw [step, hdelete, Option.getD_some]
  have hsecond : ∀ l, step acceptAll ⟨1, "default"⟩ ⟨d', ⟨100, l, false⟩⟩
      (.round (.answered none)) =
        ⟨d', ⟨200, l ++ page 100 100 (orderBy Cluster.clusterID (live 1 d')), false⟩⟩ := by
    intro l
    rw [step, if_neg Bool.false_ne_true, round_answered, hlength, if_neg (by simp)]
  have hlast : ∀ l, step acceptAll ⟨1, "default"⟩ ⟨d', ⟨200, l, false⟩⟩
      (.round (.answered none)) = ⟨d', ⟨200, l, true⟩⟩ := by
    intro l
    rw [step, if_neg Bool.false_ne_true, round_answered, hlength, if_pos (by simp)]
  have hcovers := live_clusters_handled acceptAll ⟨1, "default"⟩ (manyClusters 102) scanOfTwoPages
    (by
      intro e he r hr
      subst hr
      simpa [scanOfTwoPages] using he)
    (by
      refine ⟨trivial, ?_, trivial, trivial, trivial⟩
      rw [hfirst]
      decide +kernel)
    _ (run_mem_visited (List.cons_ne_nil _ _))
  have hrun : (run (step acceptAll ⟨1, "default"⟩) ⟨manyClusters 102, .start []⟩
      scanOfTwoPages).db = d' ∧ (run (step acceptAll ⟨1, "default"⟩)
        ⟨manyClusters 102, .start []⟩ scanOfTwoPages).loop.returned = true := by
    simp only [scanOfTwoPages, run, List.foldl_cons, List.foldl_nil, hfirst, hdeleted, hsecond,
      hlast, and_self]
  refine ⟨hrun.2, ?_, ?_, hcovers⟩
  · rw [hrun.1, hids]
  · rw [hrun.1, hids]
    decide +kernel

/-- Of a hundred and one clusters the first is deleted after the first page: the last moves to
the hundredth place, and the second page, from the hundredth row on, is empty. -/
theorem deletion_skips_cluster :
    ∃ s ∈ visited (step acceptAll ⟨1, "default"⟩) ⟨manyClusters 101, .start []⟩
        [.round (.answered none), .deleteClusterSoft 1 0, .round (.answered none)],
      ¬ Covers (manyClusters 101) ⟨1, "default"⟩ s := by
  obtain ⟨d', hdelete⟩ := Option.isSome_iff_exists.mp (deleteClusterSoft_numbered 101 1)
  have hids := liveIDs_deleteClusterSoft 1 hdelete
  refine ⟨_, List.mem_cons_of_mem _ (List.mem_cons_of_mem _ List.mem_cons_self), ?_⟩
  have hfirst : step acceptAll ⟨1, "default"⟩ ⟨manyClusters 101, .start []⟩
      (.round (.answered none)) = ⟨manyClusters 101,
        ⟨100, page 100 0 (orderBy Cluster.clusterID (live 1 (manyClusters 101))), false⟩⟩ := by
    rw [step, if_neg (by decide), round_answered, if_neg (by decide +kernel)]
    rfl
  have hsecond : ∀ l, step acceptAll ⟨1, "default"⟩ ⟨manyClusters 101, l⟩
      (.deleteClusterSoft 1 0) = ⟨d', l⟩ := by
    intro l
    rw [step, hdelete, Option.getD_some]
  have hend : (live 1 d').length ≤ 100 := by
    rw [← List.length_map (f := Cluster.clusterID), ← liveIDs, hids]
    decide +kernel
  rw [hfirst, hsecond, step, if_neg Bool.false_ne_true, round_answered, if_pos hend]
  intro hcovers
  have hlast : 101 ∈ (page 100 0 (orderBy Cluster.clusterID (live 1 (manyClusters 101)))).map
      Cluster.clusterID := by
    apply hcovers rfl 101 (by decide +kernel)
    rw [hids]
    decide +kernel
  revert hlast
  decide +kernel

end ConsoleClusterPass
