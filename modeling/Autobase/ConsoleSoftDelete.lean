import Autobase.ConsoleStoredRows

/-! # DELETE /clusters/{id}

The row stays under a name that ends in the second of its deletion. The statement asks neither
whether the row is deleted already nor whether the new name is taken. -/
namespace ConsoleSoftDelete

open ConsoleSchema ConsoleStatements ConsoleStoredRows RowTables TransitionRuns

def names (d : Db) : List String := d.clusters.map Cluster.clusterName

def deletedName (pg : Postgres) (now : ℕ) (name : String) : String :=
  name ++ ("_deleted_" ++ pg.timestampSuffix now)

/-- A live cluster is deleted and gives its name away, a deleted one stays as it is. -/
structure Deletes (pg : Postgres) (id : ℤ) (now : ℕ) (d : Db) : Prop where
  live : ∀ c ∈ d.clusters, c.clusterID = id → c.deletedAt = none →
    ∃ d', deleteClusterSoft pg id now d = some d' ∧ c.clusterName ∉ names d'
  again : ∀ c ∈ d.clusters, c.clusterID = id → c.deletedAt.isSome →
    c ∈ ((deleteClusterSoft pg id now d).getD d).clusters

/-- The name a live cluster would get is free, and the one a deleted cluster would get is not. -/
structure Timely (pg : Postgres) (id : ℤ) (now : ℕ) (d : Db) : Prop where
  live : ∀ c ∈ d.clusters, c.clusterID = id → c.deletedAt = none →
    deletedName pg now c.clusterName ∉ names d
  again : ∀ c ∈ d.clusters, c.clusterID = id → c.deletedAt.isSome →
    deletedName pg now c.clusterName ∈ names d

/-- What holds of the requests of a run. -/
def Requests (P : ℤ → ℕ → Db → Prop) (s : Store) : Write → Prop
  | .deleteClusterSoft id now => P id now s.db
  | _ => True

/-! ## One request -/

variable {pg : Postgres} {id : ℤ} {now : ℕ} {d d' : Db} {c : Cluster}

theorem deletedName_ne (pg : Postgres) (now : ℕ) (name : String) :
    deletedName pg now name ≠ name := by
  intro h
  have hlength := congrArg String.length h
  simp only [deletedName, String.length_append] at hlength
  have hword : "_deleted_".length = 9 := rfl
  omega

theorem clusters_deleteClusterSoft (h : deleteClusterSoft pg id now d = some d') : d'.clusters =
    updateWhere (fun c => decide (c.clusterID = id)) (softDeleted pg now) d.clusters := by
  rw [commit_eq_some.mp h]

theorem softDeleted_mem (h : deleteClusterSoft pg id now d = some d') (hc : c ∈ d.clusters)
    (hid : c.clusterID = id) : softDeleted pg now c ∈ d'.clusters := by
  rw [clusters_deleteClusterSoft h, mem_updateWhere]
  exact ⟨c, hc, by rw [if_pos (decide_eq_true hid)]⟩

theorem other_mem (h : deleteClusterSoft pg id now d = some d') (hc : c ∈ d.clusters)
    (hid : c.clusterID ≠ id) : c ∈ d'.clusters := by
  rw [clusters_deleteClusterSoft h, mem_updateWhere]
  exact ⟨c, hc, by rw [decide_eq_false hid]; rfl⟩

/-- The unique names refuse the deletion when the new name is taken, and only then. -/
theorem deleteClusterSoft_iff (hc : c ∈ d.clusters) (hid : c.clusterID = id) :
    (deleteClusterSoft pg id now d).isSome ↔ deletedName pg now c.clusterName ∉ names d := by
  constructor
  · intro h hmem
    obtain ⟨d', hd⟩ := Option.isSome_iff_exists.mp h
    obtain ⟨b, hb, hname⟩ := List.mem_map.mp hmem
    have hother : b.clusterID ≠ id := by
      intro hbid
      obtain rfl := eq_of_key_eq d.ok.clusters_pkey hb hc (hbid.trans hid.symm)
      exact deletedName_ne pg now _ hname.symm
    have hsame := eq_of_key_eq d'.ok.clusters_name_key (other_mem hd hb hother)
      (softDeleted_mem hd hc hid) hname
    exact hother ((congrArg Cluster.clusterID hsame).trans hid)
  · intro h
    refine deleteClusterSoft_isSome fun b hb hbid c' hc' hname => h ?_
    obtain rfl := eq_of_key_eq d.ok.clusters_pkey hb hc (hbid.trans hid.symm)
    exact List.mem_map.mpr ⟨c', hc', hname⟩

/-- The former name is free once the row has another one. -/
theorem name_free (h : deleteClusterSoft pg id now d = some d') (hc : c ∈ d.clusters)
    (hid : c.clusterID = id) : c.clusterName ∉ names d' := by
  intro hmem
  obtain ⟨c', hc', hname⟩ := List.mem_map.mp hmem
  rw [clusters_deleteClusterSoft h] at hc'
  obtain ⟨b, hb, rfl⟩ := mem_updateWhere.mp hc'
  by_cases hbid : b.clusterID = id
  · obtain rfl := eq_of_key_eq d.ok.clusters_pkey hb hc (hbid.trans hid.symm)
    rw [if_pos (decide_eq_true hbid)] at hname
    exact deletedName_ne pg now _ hname
  · rw [if_neg (by simp [hbid])] at hname
    obtain rfl := eq_of_key_eq d.ok.clusters_name_key hb hc hname
    exact hbid hid

/-- A deletion that goes through changes the row, whether it was deleted before or not. -/
theorem row_changed (h : deleteClusterSoft pg id now d = some d') (hc : c ∈ d.clusters)
    (hid : c.clusterID = id) : c ∉ d'.clusters :=
  fun hmem => name_free h hc hid (List.mem_map_of_mem hmem)

theorem deletes_iff : Deletes pg id now d ↔ Timely pg id now d := by
  constructor
  · intro h
    refine ⟨fun c hc hid hlive => ?_, fun c hc hid hgone => ?_⟩
    · obtain ⟨d', hd, -⟩ := h.live c hc hid hlive
      exact (deleteClusterSoft_iff hc hid).mp (hd ▸ rfl)
    · by_contra hfree
      have hsome : (deleteClusterSoft pg id now d).isSome :=
        (deleteClusterSoft_iff hc hid).mpr hfree
      obtain ⟨d', hd⟩ := Option.isSome_iff_exists.mp hsome
      have hkept := h.again c hc hid hgone
      rw [hd] at hkept
      exact row_changed hd hc hid hkept
  · intro h
    refine ⟨fun c hc hid hlive => ?_, fun c hc hid hgone => ?_⟩
    · obtain ⟨d', hd⟩ := Option.isSome_iff_exists.mp
        ((deleteClusterSoft_iff hc hid).mpr (h.live c hc hid hlive))
      exact ⟨d', hd, name_free hd hc hid⟩
    · have hrefused : deleteClusterSoft pg id now d = none :=
        Option.not_isSome_iff_eq_none.mp fun hsome =>
          (deleteClusterSoft_iff hc hid).mp hsome (h.again c hc hid hgone)
      rw [hrefused]
      exact hc

/-- In a run, every request deletes and every repetition leaves alone exactly as long as the
names that come up are free for the live rows and taken for the deleted ones. -/
theorem soft_deletion_iff (pg : Postgres) (s : Store) (ws : List Write) :
    Along (act pg) (Requests (Deletes pg)) s ws ↔ Along (act pg) (Requests (Timely pg)) s ws := by
  have hstep : Requests (Deletes pg) = Requests (Timely pg) := by
    funext s w
    cases w with
    | deleteClusterSoft id now => exact propext deletes_iff
    | row st => rfl
    | updateCluster req => rfl
    | createSecret req => rfl
    | deleteSecret id => rfl
    | others f => rfl
  rw [hstep]

/-- A cluster is deleted and another one gets its name. -/
def nameTwice : List Write :=
  [.row (.createCluster deployRequest 0), .deleteClusterSoft 1 0,
    .row (.createCluster deployRequest 0)]

def twice : Db := (run (act acceptAll) ⟨migrated, 1⟩ nameTwice).db

/-- The second of two clusters of one name, deleted in the second of the first, stays. -/
theorem deleted_in_one_second : ¬ Along (act acceptAll) (Requests (Deletes acceptAll))
    ⟨migrated, 1⟩ (nameTwice ++ [.deleteClusterSoft 2 0]) := by
  intro h
  have hdeletes : Deletes acceptAll 2 0 twice := h.last
  have hlast : (getCluster 2 twice).map Cluster.deletedAt = some none := by decide +kernel
  obtain ⟨c, hc, hlive⟩ := Option.map_eq_some_iff.mp hlast
  have hid : c.clusterID = 2 := by simpa using List.find?_some hc
  obtain ⟨d', hd, -⟩ := hdeletes.live c (List.mem_of_find?_eq_some hc) hid hlive
  have hrefused : (deleteClusterSoft acceptAll 2 0 twice).isSome = false := by decide +kernel
  rw [hd] at hrefused
  cases hrefused

/-! ## Deletions in different seconds -/

/-- A deleted row shows its second, and a live one has no such name. -/
def Marked (pg : Postgres) (s : Store) : Prop :=
  ∀ c ∈ s.db.clusters, (c.deletedAt = none → ∀ t base, c.clusterName ≠ deletedName pg t base) ∧
    ∀ t ∈ c.deletedAt, ∃ base, c.clusterName = deletedName pg t base

/-- No name is given that looks deleted, no row is deleted twice and no two in one second. -/
def Seconds (pg : Postgres) (s : Store) : Write → Prop
  | .deleteClusterSoft id now =>
    (∀ c ∈ s.db.clusters, c.clusterID = id → c.deletedAt = none) ∧
      ∀ c ∈ s.db.clusters, ∀ t ∈ c.deletedAt, pg.timestampSuffix t ≠ pg.timestampSuffix now
  | .row (.createCluster req _) => ∀ t base, req.name ≠ deletedName pg t base
  | _ => True

/-- Where the rows of clusters come from. -/
inductive Origin (pg : Postgres) (d : Db) (w : Write) (c' : Cluster) : Prop where
  | old (c : Cluster) (hc : c ∈ d.clusters) (hname : c'.clusterName = c.clusterName)
      (hdeleted : c'.deletedAt = c.deletedAt)
  | created (req : CreateClusterReq) (now : ℕ) (hw : w = .row (.createCluster req now))
      (hname : c'.clusterName = req.name) (hlive : c'.deletedAt = none)
  | deleted (id : ℤ) (now : ℕ) (hw : w = .deleteClusterSoft id now) (c : Cluster)
      (hname : c'.clusterName = deletedName pg now c.clusterName)
      (hdeleted : c'.deletedAt = some now)

theorem origin_updateWhere {w : Write} {c' : Cluster} {p : Cluster → Bool}
    {f : Cluster → Cluster} (hc : c' ∈ updateWhere p f d.clusters)
    (hf : ∀ c, (f c).clusterName = c.clusterName ∧ (f c).deletedAt = c.deletedAt) :
    Origin pg d w c' := by
  obtain ⟨b, hb, rfl⟩ := mem_updateWhere.mp hc
  split
  · exact .old b hb (hf b).1 (hf b).2
  · exact .old b hb rfl rfl

theorem origin_rowWrite {w : Write} {c' : Cluster} (hw : ConsoleServerCount.RowWrite d d' id)
    (hc : c' ∈ d'.clusters) : Origin pg d w c' := by
  obtain ⟨servers, n, ht⟩ := hw.tables
  rw [ht] at hc
  exact origin_updateWhere hc fun _ => ⟨rfl, rfl⟩

theorem origin_statement {st : ConsoleServerCount.Statement} {c' : Cluster}
    (h : ConsoleServerCount.exec pg st d = some d') (hc : c' ∈ d'.clusters) :
    Origin pg d (.row st) c' := by
  have hsame : ∀ {p : Server → Bool}, deleteServers p d = some d' →
      Origin pg d (.row st) c' := by
    intro p hd
    rw [ConsoleServerCount.deleteServers_tables hd] at hc
    exact .old c' hc rfl rfl
  cases st with
  | createCluster req now =>
    rw [ConsoleServerCount.exec_createCluster h] at hc
    rcases List.mem_append.mp hc with hc | hc
    · exact .old c' hc rfl rfl
    · obtain rfl := List.mem_singleton.mp hc
      exact .created req now rfl rfl rfl
  | createServer req => exact origin_rowWrite (ConsoleServerCount.exec_createServer h) hc
  | updateServer req => exact origin_rowWrite (ConsoleServerCount.exec_updateServer h) hc
  | resetServer i ip => exact origin_rowWrite (ConsoleServerCount.exec_resetServer h) hc
  | deleteServer i => exact hsame h
  | deleteClusterServers i => exact hsame h
  | deleteClusterRow i =>
    rw [ConsoleServerCount.exec_deleteClusterRow h] at hc
    exact .old c' (mem_deleteWhere.mp hc).1 rfl rfl

theorem origin_act (pg : Postgres) (s : Store) (w : Write) {c' : Cluster}
    (hc : c' ∈ (act pg s w).db.clusters) : Origin pg s.db w c' := by
  rw [act] at hc
  cases h : exec pg s w with
  | none =>
    rw [h] at hc
    exact .old c' hc rfl rfl
  | some s' =>
    rw [h, Option.getD_some] at hc
    cases w with
    | row st =>
      obtain ⟨d', hd, rfl⟩ := Option.map_eq_some_iff.mp h
      exact origin_statement hd hc
    | updateCluster req =>
      obtain ⟨⟨c, d'⟩, hd, rfl⟩ := Option.map_eq_some_iff.mp h
      obtain ⟨info, -, -, ht, -⟩ := updateCluster_eq_some.mp hd
      rw [show d'.clusters = _ from congrArg Tables.clusters ht] at hc
      exact origin_updateWhere hc fun _ => ⟨rfl, rfl⟩
    | deleteClusterSoft id now =>
      obtain ⟨d', hd, rfl⟩ := Option.map_eq_some_iff.mp h
      rw [clusters_deleteClusterSoft hd] at hc
      obtain ⟨b, hb, rfl⟩ := mem_updateWhere.mp hc
      split
      · exact .deleted id now rfl b rfl rfl
      · exact .old b hb rfl rfl
    | createSecret req =>
      obtain ⟨⟨q, t⟩, hd, rfl⟩ := Option.map_eq_some_iff.mp h
      obtain ⟨v, -, -, -, ht⟩ := createSecret_eq_some hd
      rw [show t.db.clusters = s.db.clusters by rw [ht]] at hc
      exact .old c' hc rfl rfl
    | deleteSecret id =>
      obtain ⟨d', hd, rfl⟩ := Option.map_eq_some_iff.mp h
      rw [show d'.clusters = s.db.clusters by rw [commit_eq_some.mp hd]] at hc
      exact .old c' hc rfl rfl
    | others f =>
      obtain ⟨d', hd, rfl⟩ := Option.map_eq_some_iff.mp h
      rw [show d'.clusters = s.db.clusters by rw [commit_eq_some.mp hd]] at hc
      exact .old c' hc rfl rfl

theorem marked_act (s : Store) (w : Write) (h : Marked pg s) (hw : Seconds pg s w) :
    Marked pg (act pg s w) := by
  intro c' hc'
  cases origin_act pg s w hc' with
  | old c hc hname hdeleted =>
    rw [hname, hdeleted]
    exact h c hc
  | created req now he hname hlive =>
    subst he
    rw [hname, hlive]
    exact ⟨fun _ => hw, fun t ht => absurd ht (Option.not_mem_none t)⟩
  | deleted id now he c hname hdeleted =>
    rw [hname, hdeleted]
    refine ⟨fun hno => absurd hno (Option.some_ne_none now), fun t ht => ⟨c.clusterName, ?_⟩⟩
    rw [Option.mem_some.mp ht]

/-- The seconds of two names can be told apart when all are written alike. -/
theorem suffix_eq (hlength : ∀ t t', (pg.timestampSuffix t).length = (pg.timestampSuffix t').length)
    {t t' : ℕ} {name name' : String} (h : deletedName pg t name = deletedName pg t' name') :
    pg.timestampSuffix t = pg.timestampSuffix t' := by
  have hlist := congrArg String.toList h
  simp only [deletedName, String.toList_append, ← List.append_assoc] at hlist
  exact String.toList_injective (List.append_inj_right' hlist (hlength t t'))

theorem timely_of_seconds
    (hlength : ∀ t t', (pg.timestampSuffix t).length = (pg.timestampSuffix t').length)
    {s : Store} (h : Marked pg s) {id : ℤ} {now : ℕ}
    (hw : Seconds pg s (.deleteClusterSoft id now)) : Timely pg id now s.db := by
  refine ⟨fun c _ _ _ hmem => ?_, fun c hc hid hgone => ?_⟩
  · obtain ⟨c', hc', hname⟩ := List.mem_map.mp hmem
    cases hdeleted : c'.deletedAt with
    | none => exact (h c' hc').1 hdeleted now c.clusterName hname
    | some t =>
      obtain ⟨base, hbase⟩ := (h c' hc').2 t hdeleted
      exact hw.2 c' hc' t hdeleted (suffix_eq hlength (hbase.symm.trans hname))
  · rw [hw.1 c hc hid] at hgone
    cases hgone

/-- Deletions of live clusters in different seconds always go through. -/
theorem soft_deletion_of_seconds
    (hlength : ∀ t t', (pg.timestampSuffix t).length = (pg.timestampSuffix t').length)
    {s : Store} (h : Marked pg s) {ws : List Write} (hws : Along (act pg) (Seconds pg) s ws) :
    Along (act pg) (Requests (Deletes pg)) s ws := by
  induction ws generalizing s with
  | nil => trivial
  | cons w ws ih =>
    refine ⟨?_, ih (marked_act s w h hws.1) hws.2⟩
    cases w with
    | deleteClusterSoft id now => exact deletes_iff.mpr (timely_of_seconds hlength h hws.1)
    | row st => trivial
    | updateCluster req => trivial
    | createSecret req => trivial
    | deleteSecret id => trivial
    | others f => trivial

end ConsoleSoftDelete
