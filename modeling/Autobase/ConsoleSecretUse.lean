import Autobase.ConsoleListings
import Autobase.ConsolePostSecret

/-! # The flag `used` of a secret

The view counts the clusters of the secret's own project, the foreign key counts them all. A
cluster may be created in any project with the secret of any other. -/
namespace ConsoleSecretUse

open ConsoleSchema ConsoleStatements ConsoleStoredRows ConsoleListings SortedPages
open RowTables TransitionRuns

variable (T : Stamps) (collation : Comparison String)

/-- What is shown as unused can be deleted. -/
def FlagAccurate (s : Store) : Prop :=
  ∀ v ∈ vSecretsList T collation s.db, v.used = false → (deleteSecret v.id s).isSome

/-- The secret and the project of each cluster. -/
def uses (clusters : List Cluster) : List (Option ℤ × ℤ) :=
  clusters.map fun c => (c.secretID, c.projectID)

/-- A secret that is used is used in its own project. -/
def UsedAtHome (secrets : List Secret) (used : List (Option ℤ × ℤ)) : Prop :=
  ∀ q ∈ secrets, (∃ p, (some q.secretID, p) ∈ used) → (some q.secretID, q.projectID) ∈ used

/-- A new cluster is in the project of its secret, or some cluster there uses the secret. -/
def Joins (req : CreateClusterReq) (d : Db) : Prop :=
  ∀ q ∈ d.secrets, req.secretID = some q.secretID →
    req.projectID = q.projectID ∨ (some q.secretID, q.projectID) ∈ uses d.clusters

def others (id : ℤ) (d : Db) : List Cluster :=
  deleteWhere (fun c => decide (c.clusterID = id)) d.clusters

/-- A cluster that is taken away leaves no other project alone with its secret. -/
def Leaves (id : ℤ) (d : Db) : Prop :=
  ∀ c ∈ d.clusters, c.clusterID = id → ∀ q ∈ d.secrets, c.secretID = some q.secretID →
    (∃ p, (some q.secretID, p) ∈ uses (others id d)) →
    (some q.secretID, q.projectID) ∈ uses (others id d)

def RowGuard (d : Db) : ConsoleServerCount.Statement → Prop
  | .createCluster req _ => Joins req d
  | .deleteClusterRow id => Leaves id d
  | _ => True

def WriteGuard (d : Db) : Write → Prop
  | .row st => RowGuard d st
  | .deleteClusterSoft id _ => Leaves id d
  | _ => True

/-- A statement that fails has nothing to keep. -/
def Guard (pg : Postgres) (s : Store) (w : Write) : Prop :=
  (exec pg s w).isSome → WriteGuard s.db w

/-! ## The flag and the foreign key -/

variable {T collation} {pg : Postgres} {s s' : Store} {d d' : Db} {q : Secret} {id : ℤ}
  {secrets : List Secret} {clusters : List Cluster}

theorem mem_uses {i : Option ℤ} {p : ℤ} :
    (i, p) ∈ uses clusters ↔ ∃ c ∈ clusters, c.secretID = i ∧ c.projectID = p := by
  simp only [uses, List.mem_map, Prod.mk.injEq]

theorem used_eq_true {v : SecretView} (hv : v ∈ vSecretsList T collation d) : ∃ q ∈ d.secrets,
    v.id = q.secretID ∧
      (v.used = true ↔ (some q.secretID, q.projectID) ∈ uses d.clusters) := by
  obtain ⟨q, hq, rfl⟩ := List.mem_map.mp hv
  refine ⟨q, hq, rfl, ?_⟩
  have hlength : (usedBy collation q d).length =
      (d.clusters.filter fun c =>
        decide (c.secretID = some q.secretID ∧ c.projectID = q.projectID)).length := by
    rw [usedBy, List.length_insertionSort, List.length_map]
  rw [Bool.not_eq_true', List.isEmpty_eq_false_iff, ← List.length_pos_iff, hlength,
    List.length_pos_iff_exists_mem, mem_uses]
  constructor
  · rintro ⟨c, hc⟩
    obtain ⟨hc, h⟩ := List.mem_filter.mp hc
    exact ⟨c, hc, of_decide_eq_true h⟩
  · rintro ⟨c, hc, h⟩
    exact ⟨c, List.mem_filter.mpr ⟨hc, decide_eq_true h⟩⟩

/-- Only a cluster that refers to it keeps a secret from being deleted. -/
theorem deleteSecret_isSome :
    (deleteSecret id s).isSome ↔ ∀ p, (some id, p) ∉ uses s.db.clusters := by
  rw [deleteSecret, Option.isSome_map, commit_isSome]
  constructor
  · rintro h p hp
    obtain ⟨c, hc, hid, -⟩ := mem_uses.mp hp
    obtain ⟨q, hq, he⟩ := List.mem_map.mp (h.clusters_secret_fkey c hc id hid)
    have hno := (mem_deleteWhere.mp hq).2
    simp [he] at hno
  · intro h
    have hk := s.db.ok
    refine { hk with secrets_pkey := ?_, clusters_secret_fkey := fun c hc i hi => ?_ }
    · exact hk.secrets_pkey.sublist (List.filter_sublist.map _)
    · obtain ⟨q, hq, rfl⟩ := List.mem_map.mp (hk.clusters_secret_fkey c hc i hi)
      refine List.mem_map_of_mem (mem_deleteWhere.mpr ⟨hq, decide_eq_false ?_⟩)
      rintro rfl
      exact h c.projectID (mem_uses.mpr ⟨c, hc, hi, rfl⟩)

theorem flagAccurate_iff :
    FlagAccurate T collation s ↔ UsedAtHome s.db.secrets (uses s.db.clusters) := by
  constructor
  · rintro h q hq ⟨p, hp⟩
    by_contra hhome
    have hv : _ ∈ vSecretsList T collation s.db := List.mem_map_of_mem hq
    obtain ⟨q', hq', he, hused⟩ := used_eq_true hv
    obtain rfl : q = q' := eq_of_key_eq s.db.ok.secrets_pkey hq hq' he
    have hfalse := Bool.eq_false_iff.mpr fun h => hhome (hused.mp h)
    exact deleteSecret_isSome.mp (h _ hv hfalse) p hp
  · intro h v hv hfalse
    obtain ⟨q, hq, he, hused⟩ := used_eq_true hv
    rw [he, deleteSecret_isSome]
    exact fun p hp => Bool.eq_false_iff.mp hfalse (hused.mpr (h q hq ⟨p, hp⟩))

/-! ## What a statement does to the uses -/

variable {used used' : List (Option ℤ × ℤ)}

theorem usedAtHome_congr (h : ∀ i p, (some i, p) ∈ used' ↔ (some i, p) ∈ used) :
    UsedAtHome secrets used' ↔ UsedAtHome secrets used := by
  simp only [UsedAtHome, h]

theorem uses_softDeleted (now : ℕ) (i p : ℤ) :
    (some i, p) ∈ uses (updateWhere (fun c => decide (c.clusterID = id)) (softDeleted pg now)
      d.clusters) ↔ (some i, p) ∈ uses (others id d) := by
  simp only [mem_uses, others, mem_updateWhere, mem_deleteWhere, decide_eq_false_iff_not,
    decide_eq_true_eq]
  constructor
  · rintro ⟨c, ⟨b, hb, rfl⟩, hi, hp⟩
    by_cases hid : b.clusterID = id
    · rw [if_pos hid] at hi
      cases hi
    · rw [if_neg hid] at hi hp
      exact ⟨b, ⟨hb, hid⟩, hi, hp⟩
  · rintro ⟨b, ⟨hb, hid⟩, hi, hp⟩
    exact ⟨b, ⟨b, hb, (if_neg hid).symm⟩, hi, hp⟩

theorem usedAtHome_joins {req : CreateClusterReq} {n : ℤ} {now : ℕ}
    (h : UsedAtHome d.secrets (uses d.clusters)) :
    UsedAtHome d.secrets (uses (d.clusters ++ [req.row n now])) ↔ Joins req d := by
  have hmem : ∀ i p, (i, p) ∈ uses (d.clusters ++ [req.row n now]) ↔
      (i, p) ∈ uses d.clusters ∨ req.secretID = i ∧ req.projectID = p := by
    intro i p
    simp only [uses, List.map_append, List.map_singleton, List.mem_append, List.mem_singleton,
      Prod.mk.injEq, CreateClusterReq.row, eq_comm]
  simp only [UsedAtHome, hmem]
  constructor
  · intro h' q hq hid
    rcases h' q hq ⟨req.projectID, Or.inr ⟨hid, rfl⟩⟩ with hold | ⟨-, hp⟩
    · exact Or.inr hold
    · exact Or.inl hp
  · rintro hjoins q hq ⟨p, hp | ⟨hid, rfl⟩⟩
    · exact Or.inl (h q hq ⟨p, hp⟩)
    · rcases hjoins q hq hid with hp | hold
      · exact Or.inr ⟨hid, hp⟩
      · exact Or.inl hold

theorem usedAtHome_leaves (h : UsedAtHome d.secrets (uses d.clusters)) :
    UsedAtHome d.secrets (uses (others id d)) ↔ Leaves id d := by
  constructor
  · intro h' c _ _ q hq _ hothers
    exact h' q hq hothers
  · rintro hleaves q hq ⟨p, hp⟩
    obtain ⟨b, hb, hid, hproj⟩ := mem_uses.mp hp
    obtain ⟨c, hc, hcid, hcproj⟩ := mem_uses.mp (h q hq ⟨p, mem_uses.mpr
      ⟨b, (mem_deleteWhere.mp hb).1, hid, hproj⟩⟩)
    by_cases hgone : c.clusterID = id
    · exact hleaves c hc hgone q hq hcid ⟨p, hp⟩
    · exact mem_uses.mpr ⟨c, mem_deleteWhere.mpr ⟨hc, decide_eq_false hgone⟩, hcid, hcproj⟩

theorem uses_updateWhere {p : Cluster → Bool} {f : Cluster → Cluster}
    (hf : ∀ c, (f c).secretID = c.secretID ∧ (f c).projectID = c.projectID) :
    uses (updateWhere p f clusters) = uses clusters :=
  map_updateWhere (fun c => Prod.ext (hf c).1 (hf c).2) clusters

/-- A statement that writes no secret and, of the clusters, other columns only. -/
theorem usedAtHome_same (hsecrets : d'.secrets = d.secrets)
    (huses : uses d'.clusters = uses d.clusters) (h : UsedAtHome d.secrets (uses d.clusters)) :
    UsedAtHome d'.secrets (uses d'.clusters) := by
  rw [hsecrets, huses]
  exact h

theorem usedAtHome_rowWrite (hw : ConsoleServerCount.RowWrite d d' id)
    (h : UsedAtHome d.secrets (uses d.clusters)) : UsedAtHome d'.secrets (uses d'.clusters) := by
  obtain ⟨servers, n, ht⟩ := hw.tables
  refine usedAtHome_same (by rw [ht]; rfl) ?_ h
  rw [ht]
  exact uses_updateWhere fun _ => ⟨rfl, rfl⟩

theorem usedAtHome_statement {st : ConsoleServerCount.Statement}
    (he : ConsoleServerCount.exec pg st d = some d')
    (h : UsedAtHome d.secrets (uses d.clusters)) :
    UsedAtHome d'.secrets (uses d'.clusters) ↔ RowGuard d st := by
  have hservers : ∀ {p : Server → Bool}, deleteServers p d = some d' →
      UsedAtHome d'.secrets (uses d'.clusters) := by
    intro p hd
    have ht := ConsoleServerCount.deleteServers_tables hd
    exact usedAtHome_same (by rw [ht]) (by rw [ht]) h
  cases st with
  | createCluster req now =>
    rw [ConsoleServerCount.exec_createCluster he]
    exact usedAtHome_joins h
  | deleteClusterRow i =>
    rw [ConsoleServerCount.exec_deleteClusterRow he]
    exact usedAtHome_leaves h
  | createServer req =>
    exact iff_of_true (usedAtHome_rowWrite (ConsoleServerCount.exec_createServer he) h) trivial
  | updateServer req =>
    exact iff_of_true (usedAtHome_rowWrite (ConsoleServerCount.exec_updateServer he) h) trivial
  | resetServer i ip =>
    exact iff_of_true (usedAtHome_rowWrite (ConsoleServerCount.exec_resetServer he) h) trivial
  | deleteServer i => exact iff_of_true (hservers he) trivial
  | deleteClusterServers i => exact iff_of_true (hservers he) trivial

/-- A new secret has a number that no cluster refers to. -/
theorem usedAtHome_createSecret {req : AddSecretReq} (he : createSecret req s = some (q, s'))
    (h : UsedAtHome s.db.secrets (uses s.db.clusters)) :
    UsedAtHome s'.db.secrets (uses s'.db.clusters) := by
  obtain ⟨v, -, -, -, ht⟩ := createSecret_eq_some he
  have hsecrets : s'.db.secrets = s.db.secrets ++ [q] := by rw [ht]
  have hclusters : s'.db.clusters = s.db.clusters := by rw [ht]
  have hkeys := s'.db.ok.secrets_pkey
  rw [hsecrets, List.map_append] at hkeys
  rw [hsecrets, hclusters]
  rintro q' hq' ⟨p, hp⟩
  rcases List.mem_append.mp hq' with hq' | hq'
  · exact h q' hq' ⟨p, hp⟩
  · obtain rfl : q' = q := List.mem_singleton.mp hq'
    obtain ⟨c, hc, hid, -⟩ := mem_uses.mp hp
    have hold := s.db.ok.clusters_secret_fkey c hc _ hid
    exact absurd rfl ((List.nodup_append.mp hkeys).2.2 _ hold _ (List.mem_singleton_self _))

theorem usedAtHome_act (s : Store) (w : Write) (h : UsedAtHome s.db.secrets (uses s.db.clusters)) :
    UsedAtHome (act pg s w).db.secrets (uses (act pg s w).db.clusters) ↔ Guard pg s w := by
  rw [act, Guard]
  cases he : exec pg s w with
  | none => exact iff_of_true h fun hsome => absurd hsome Bool.false_ne_true
  | some s' =>
    simp only [Option.getD_some, Option.isSome_some, forall_const]
    cases w with
    | row st =>
      obtain ⟨d', hd, rfl⟩ := Option.map_eq_some_iff.mp he
      exact usedAtHome_statement hd h
    | updateCluster req =>
      obtain ⟨⟨c, d'⟩, hd, rfl⟩ := Option.map_eq_some_iff.mp he
      obtain ⟨info, -, -, ht, -⟩ := updateCluster_eq_some.mp hd
      refine iff_of_true (usedAtHome_same (d := s.db) (by rw [ht]) ?_ h) trivial
      rw [ht]
      exact uses_updateWhere fun _ => ⟨rfl, rfl⟩
    | deleteClusterSoft id now =>
      obtain ⟨d', hd, rfl⟩ := Option.map_eq_some_iff.mp he
      have hleft : UsedAtHome s.db.secrets (uses d'.clusters) ↔ Leaves id s.db := by
        rw [commit_eq_some.mp hd]
        exact (usedAtHome_congr (uses_softDeleted now)).trans (usedAtHome_leaves h)
      rwa [show d'.secrets = s.db.secrets by rw [commit_eq_some.mp hd]]
    | createSecret req =>
      obtain ⟨⟨q, t⟩, hd, rfl⟩ := Option.map_eq_some_iff.mp he
      exact iff_of_true (usedAtHome_createSecret hd h) trivial
    | deleteSecret id =>
      obtain ⟨d', hd, rfl⟩ := Option.map_eq_some_iff.mp he
      refine iff_of_true ?_ trivial
      rw [commit_eq_some.mp hd]
      exact fun q hq => h q (mem_deleteWhere.mp hq).1
    | others f =>
      obtain ⟨d', hd, rfl⟩ := Option.map_eq_some_iff.mp he
      refine iff_of_true ?_ trivial
      rw [commit_eq_some.mp hd]
      exact h

/-- The flag tells what can be deleted exactly as long as every cluster joins and leaves its
secret in the company of the secret's project. -/
theorem used_flag_accurate_iff (T : Stamps) (collation : Comparison String) (pg : Postgres)
    (s : Store) (h : FlagAccurate T collation s) (ws : List Write) :
    (∀ t ∈ visited (act pg) s ws, FlagAccurate T collation t) ↔ Along (act pg) (Guard pg) s ws :=
  visited_iff_along (I := fun _ => True) (fun _ _ _ => trivial)
    (fun t w _ ht => by
      rw [flagAccurate_iff] at ht ⊢
      exact usedAtHome_act t w ht)
    trivial h

open ConsolePostSecret ConsolePostCluster ConsoleSecretFlow

def passwordReq : AddSecretReq := ⟨1, "password", "server access", some "null".toList⟩

theorem used_flag_accurate_own_project : FlagAccurate noStamps Comparison.always oneProject ∧
    ∀ t ∈ visited (act acceptAll) oneProject [.createSecret passwordReq,
      .row (.createCluster { deployRequest with secretID := some 1 } 0)],
      FlagAccurate noStamps Comparison.always t := by
  have hempty : FlagAccurate noStamps Comparison.always oneProject := by
    intro v hv
    cases hv
  refine ⟨hempty, (used_flag_accurate_iff _ _ acceptAll oneProject hempty _).mpr
    ⟨fun _ => trivial, fun _ q hq _ => Or.inl ?_, trivial⟩⟩
  have hprojects : (act acceptAll oneProject (.createSecret passwordReq)).db.secrets.map
      Secret.projectID = [1] := by decide +kernel
  exact (List.mem_singleton.mp (hprojects ▸ List.mem_map_of_mem hq)).symm

def twoProjects : Store :=
  act acceptAll oneProject (.others fun t => { t with projects := t.projects ++ [⟨2, "qa"⟩] })

def withSecret : Store := (handlePostSecret quiet passwordBody twoProjects).1

/-- A deployment in the second project with a secret of the first. -/
def withCluster : Store :=
  { withSecret with db := (handle smooth { deployBody with projectID := 2 } withSecret.db).db }

theorem unused_secret_referred : ¬ FlagAccurate noStamps Comparison.always withCluster := by
  intro h
  rw [flagAccurate_iff] at h
  have hsecrets : withCluster.db.secrets.map (fun q => (q.secretID, q.projectID)) = [(1, 1)] := by
    decide +kernel
  have huses : uses withCluster.db.clusters = [(some 1, 2)] := by decide +kernel
  obtain ⟨q, hq, he⟩ := List.mem_map.mp (hsecrets ▸ List.mem_singleton_self ((1 : ℤ), (1 : ℤ)))
  obtain ⟨hid, hproject⟩ := Prod.mk.inj he
  have hhome := h q hq
  rw [huses, hid, hproject] at hhome
  exact absurd (hhome ⟨2, List.mem_singleton_self _⟩) (by decide)

end ConsoleSecretUse
