import Autobase.TransitionRuns
import Autobase.UpdateHost

/-! # The rolling update

The replicas are updated one by one and the host of the leader last, while Patroni may move the
leadership at any time. A task that fails ends the playbook. -/
namespace RollingUpdate

open BatchRuns UpdateTraffic UpdateHost TransitionRuns

structure Cluster (η : Type*) where
  rollout : Rollout η UpdateTask Member Answer
  leader : Option η

/-- A host answers the task it waits for, or Patroni changes the leader. -/
inductive Act (η : Type*)
  | task (h : η) (a : Answer)
  | elect (h : η)
  | resign

variable {η : Type*}

/-- The plays `UPDATE: Secondary` and `UPDATE: Primary`, which are not reached without a leader. -/
def playbook (S : Setting η) : List (Batch η UpdateTask) :=
  if (S.group .primary).isEmpty then []
  else (S.group .secondary).map (fun h => ⟨[h], secondaryTasks⟩) ++
    [⟨S.group .primary, primaryTasks⟩]

def begun (S : Setting η) (members : η → Member) (leader : Option η) : Cluster η :=
  ⟨start members (playbook S), leader⟩

/-- Patroni elects a member that runs and has no `nofailover`. -/
def Cluster.electable (c : Cluster η) (h : η) : Bool :=
  (c.rollout.members h).running && !(c.rollout.members h).tags.nofailover

/-- `Check for any update failure`, host by host. -/
def anyUpdateFailed (S : Setting η) (c : Cluster η) : Bool :=
  S.hosts.foldl (fun any h => any || (c.rollout.members h).updatePostgresFailed ||
    (c.rollout.members h).updatePatroniFailed || (c.rollout.members h).updateSystemFailed) false

variable {S : Setting η} {members : η → Member} {leader : Option η} {g h : η}

theorem mem_group {k : HostGroup} : h ∈ S.group k ↔ h ∈ S.hosts ∧ S.status h = k.status := by
  rw [Setting.group, List.mem_filter, decide_eq_true_eq]

theorem group_unique {k l : HostGroup} (hk : h ∈ S.group k) (hl : h ∈ S.group l) : k = l := by
  have hstatus : k.status = l.status := (mem_group.mp hk).2.symm.trans (mem_group.mp hl).2
  cases k <;> cases l
  · rfl
  · exact absurd hstatus (by decide)
  · exact absurd hstatus (by decide)
  · rfl

theorem distinct_playbook (hnodup : S.hosts.Nodup) : Distinct (playbook S) := by
  rw [Distinct, playbook]
  split
  · exact List.nodup_nil
  · have hsecondary : ((S.group .secondary).map
        fun h => (⟨[h], secondaryTasks⟩ : Batch η UpdateTask)).flatMap Batch.hosts =
        S.group .secondary := by
      rw [List.flatMap_map]
      exact List.flatMap_singleton' _
    rw [List.flatMap_append, hsecondary, List.flatMap_singleton]
    refine List.nodup_append.mpr ⟨hnodup.filter _, hnodup.filter _, ?_⟩
    rintro g hg h hh rfl
    exact absurd (group_unique hg hh) (by decide)

/-- The batch of a host: itself if it is a replica, all that answered as the leader otherwise. -/
theorem batch_cases {b : Batch η UpdateTask} (hb : b ∈ playbook S) :
    (∃ h ∈ S.group .secondary, b = ⟨[h], secondaryTasks⟩) ∨
      b = ⟨S.group .primary, primaryTasks⟩ := by
  rw [playbook] at hb
  split at hb
  · cases hb
  · rcases List.mem_append.mp hb with hb | hb
    · obtain ⟨h, hh, rfl⟩ := List.mem_map.mp hb
      exact Or.inl ⟨h, hh, rfl⟩
    · exact Or.inr (List.mem_singleton.mp hb)

theorem tasks_of_host {b : Batch η UpdateTask} {k : HostGroup} (hb : b ∈ playbook S)
    (hh : h ∈ b.hosts) (hk : h ∈ S.group k) : b.tasks = k.tasks := by
  rcases batch_cases hb with ⟨g, hg, rfl⟩ | rfl
  · obtain rfl := List.mem_singleton.mp hh
    rw [group_unique hk hg]
    rfl
  · rw [group_unique hk hh]
    rfl

theorem tasks_of_batch {b : Batch η UpdateTask} (hb : b ∈ playbook S) :
    ∃ k : HostGroup, b.tasks = k.tasks := by
  rcases batch_cases hb with ⟨h, -, rfl⟩ | rfl
  · exact ⟨.secondary, rfl⟩
  · exact ⟨.primary, rfl⟩

theorem anyUpdateFailed_iff {c : Cluster η} : anyUpdateFailed S c = true ↔
    ∃ h ∈ S.hosts, (c.rollout.members h).updateFailed = true := by
  have hfold : ∀ (hosts : List η) (b : Bool),
      (hosts.foldl (fun any h => any || (c.rollout.members h).updatePostgresFailed ||
        (c.rollout.members h).updatePatroniFailed || (c.rollout.members h).updateSystemFailed) b) =
      (b || hosts.any fun h => (c.rollout.members h).updateFailed) := by
    intro hosts
    induction hosts with
    | nil => intro b; rw [List.foldl_nil, List.any_nil, Bool.or_false]
    | cons h hosts ih =>
      intro b
      rw [List.foldl_cons, ih, List.any_cons, Member.updateFailed]
      simp only [Bool.or_assoc]
  rw [anyUpdateFailed, hfold, Bool.false_or, List.any_eq_true]

section Runs

variable [DecidableEq η]

def act (S : Setting η) (c : Cluster η) : Act η → Cluster η
  | .task h a =>
    let rollout := BatchRuns.step (perform S) c.rollout (h, a)
    ⟨rollout, if c.leader = some h ∧ (rollout.members h).running = false then none else c.leader⟩
  | .elect h => if c.electable h then { c with leader := some h } else c
  | .resign => { c with leader := none }

theorem standing_run (hnodup : S.hosts.Nodup) (as : List (Act η)) :
    Standing (perform S) members (playbook S)
      (run (act S) (begun S members leader) as).rollout := by
  refine run_of (I := fun c : Cluster η => Standing (perform S) members (playbook S) c.rollout) ?_
    (standing_start (distinct_playbook hnodup)) as
  intro c a hc
  cases a with
  | task h a => exact standing_step (distinct_playbook hnodup) hc (h, a)
  | elect h =>
    rw [act]
    split <;> exact hc
  | resign => exact hc

/-- Hosts that the update has not begun with, or is through with, are in service. -/
theorem inService_of_settled (hrunning : (members h).running = true)
    {r : Rollout η UpdateTask Member Answer}
    (hs : Settled (perform S) members (playbook S) r h) :
    InService S (members h) (r.members h) := by
  rcases hs with ⟨-, hsame⟩ | ⟨b, hb, -, hthrough⟩
  · rw [hsame]
    exact ⟨hrunning, Or.inl ⟨rfl, rfl⟩⟩
  · obtain ⟨k, hk⟩ := tasks_of_batch hb
    obtain ⟨hrun, hrest⟩ := restored hthrough.2 (hthrough.1.trans hk)
    exact ⟨hrun, Or.inr hrest⟩

/-- At any time of any run, with whatever failures and elections, at most one host is out of
service, unless several answered as the leader; and no host of theirs is touched before every
replica is through with its update and back in service. -/
theorem one_out_of_service (hnodup : S.hosts.Nodup) (hrunning : ∀ h, (members h).running = true)
    (as : List (Act η)) :
    let r := (run (act S) (begun S members leader) as).rollout
    (∀ g h, InService S (members g) (r.members g) ∨ InService S (members h) (r.members h) ∨
      g = h ∨ (g ∈ S.group .primary ∧ h ∈ S.group .primary)) ∧
    ∀ h ∈ S.group .primary, r.done h ≠ [] → ∀ g ∈ S.group .secondary,
      (r.done g).map Prod.fst = secondaryTasks ∧ InService S (members g) (r.members g) := by
  intro r
  have hs : Standing (perform S) members (playbook S) r := standing_run hnodup as
  constructor
  · intro g h
    by_cases hg : InService S (members g) (r.members g)
    · exact Or.inl hg
    by_cases hh : InService S (members h) (r.members h)
    · exact Or.inr (Or.inl hh)
    obtain ⟨b, hb, hgb, hhb⟩ := unsettled_together hs
      (fun hsettled => hg (inService_of_settled (hrunning g) hsettled))
      (fun hsettled => hh (inService_of_settled (hrunning h) hsettled))
    rcases batch_cases hb with ⟨f, -, rfl⟩ | rfl
    · exact Or.inr (Or.inr (Or.inl
        ((List.mem_singleton.mp hgb).trans (List.mem_singleton.mp hhb).symm)))
    · exact Or.inr (Or.inr (Or.inr ⟨hgb, hhb⟩))
  · intro h hh hdone g hg
    have hplaybook : playbook S = (S.group .secondary).map (fun h => ⟨[h], secondaryTasks⟩) ++
        ⟨S.group .primary, primaryTasks⟩ :: [] := by
      rw [playbook, if_neg]
      rw [List.isEmpty_iff]
      exact List.ne_nil_of_mem hh
    have hd := distinct_playbook hnodup
    have hs' := hs
    rw [hplaybook] at hd hs'
    have hthrough := through_before hd hs' hh hdone ⟨[g], secondaryTasks⟩
      (List.mem_map_of_mem hg) g (List.mem_singleton_self g)
    refine ⟨hthrough.1, inService_of_settled (hrunning g) (Or.inr ?_)⟩
    refine ⟨⟨[g], secondaryTasks⟩, ?_, List.mem_singleton_self g, hthrough⟩
    rw [hplaybook]
    exact List.mem_append_left _ (List.mem_map_of_mem hg)

/-- A run that gets to its end without a failing task has updated every host of the two groups,
with all of its tasks in their order, and left the others as they were. All are in service again,
and errors are reported exactly if an update failed on some host. -/
theorem update_completed (hnodup : S.hosts.Nodup) (hrunning : ∀ h, (members h).running = true)
    (hflags : ∀ h, (members h).updateFailed = false) (hleader : S.group .primary ≠ [])
    (as : List (Act η)) (hover : (run (act S) (begun S members leader) as).rollout.tasks = [])
    (hfailed : (run (act S) (begun S members leader) as).rollout.failed = false) :
    let c := run (act S) (begun S members leader) as
    (∀ k, ∀ h ∈ S.group k, (c.rollout.done h).map Prod.fst = k.tasks) ∧
    (∀ h, InService S (members h) (c.rollout.members h)) ∧
    (∀ h, h ∉ S.group .primary → h ∉ S.group .secondary → c.rollout.members h = members h) ∧
    (anyUpdateFailed S c = true ↔
      ∃ h ∈ S.hosts, ∃ d ∈ c.rollout.done h, S.updates d.1 = true ∧ d.2.success = false) := by
  intro c
  have hs : Standing (perform S) members (playbook S) c.rollout := standing_run hnodup as
  have hplaybook : playbook S = (S.group .secondary).map (fun h => ⟨[h], secondaryTasks⟩) ++
      [⟨S.group .primary, primaryTasks⟩] := by
    rw [playbook, if_neg]
    rwa [List.isEmpty_iff]
  have hsettled : ∀ h, Settled (perform S) members (playbook S) c.rollout h := by
    cases hs with
    | running _ _ _ _ _ htasks _ _ => exact absurd (htasks.symm.trans hover) (by simp)
    | broken _ _ _ _ _ _ _ _ hbroken _ => exact absurd (hbroken.symm.trans hfailed) (by simp)
    | completed hb _ _ _ => exact fun h => behind_cases hb List.not_mem_nil
  refine ⟨?_, fun h => inService_of_settled (hrunning h) (hsettled h), ?_, ?_⟩
  · intro k h hh
    cases k with
    | primary =>
      refine (through_of_completed hs hover hfailed (b := ⟨S.group .primary, primaryTasks⟩)
        ?_ hh).1
      rw [hplaybook]
      exact List.mem_append_right _ (List.mem_singleton_self _)
    | secondary =>
      refine (through_of_completed hs hover hfailed (b := ⟨[h], secondaryTasks⟩) ?_
        (List.mem_singleton_self h)).1
      rw [hplaybook]
      exact List.mem_append_left _ (List.mem_map_of_mem hh)
  · intro h hprimary hsecondary
    rcases hsettled h with ⟨-, hsame⟩ | ⟨b, hb, hmem, -⟩
    · exact hsame
    · rcases batch_cases hb with ⟨g, hg, rfl⟩ | rfl
      · exact absurd (List.mem_singleton.mp hmem ▸ hg) hsecondary
      · exact absurd hmem hprimary
  · have hfailure : ∀ h, (c.rollout.members h).updateFailed = true ↔
        ∃ d ∈ c.rollout.done h, S.updates d.1 = true ∧ d.2.success = false := by
      intro h
      rw [updateFailed_of_did (did_so_far hs (Or.inr hfailed)), hflags h, Bool.false_or]
      simp
    rw [anyUpdateFailed_iff]
    simp only [hfailure]

end Runs

/-! ## A cluster of two -/

/-- Patroni reads `nofailover` where its line stands; the first host is the leader. -/
def twoHosts : Setting ℕ :=
  ⟨none, false, [0, 1], fun h => if h = 0 then 200 else 503,
    fun text => ⟨false, false, LineEdits.found (WordEdits.literal (Tag.nofailover.line true)) text⟩⟩

def failoverMember : Member :=
  ⟨"nofailover: false".toList, ⟨false, false, false⟩, true, true, none, none, none, none, false,
    false, false, false⟩

/-- A host that answers its tasks with these codes. -/
def answered (h : ℕ) (codes : List ℤ) : List (Act ℕ) :=
  codes.map fun n => .task h ⟨true, n, fun _ => false⟩

/-- The replica is updated; its package did not install. -/
def replicaUpdate : List (Act ℕ) :=
  answered 1 [0, 0, 503, 0, 0, 0, 0, 0, 0, 1, 0, 0, 0, 0, 0, 0, 200, 0, 0, 0, 200]

def leaderUpdate : List (Act ℕ) :=
  answered 0 [200, 0, 0, 0, 200, 0, 0, 503, 0, 0, 0, 0, 0, 0, 0, 0, 0, 0, 0, 0, 0, 200, 0, 0, 0,
    200]

theorem one_out_two_hosts :
    let r := (run (act twoHosts) (begun twoHosts (fun _ => failoverMember) (some 0))
      replicaUpdate).rollout
    (∀ g h, InService twoHosts failoverMember (r.members g) ∨
      InService twoHosts failoverMember (r.members h) ∨ g = h ∨
      (g ∈ twoHosts.group .primary ∧ h ∈ twoHosts.group .primary)) ∧
    ∀ h ∈ twoHosts.group .primary, r.done h ≠ [] → ∀ g ∈ twoHosts.group .secondary,
      (r.done g).map Prod.fst = secondaryTasks ∧
        InService twoHosts failoverMember (r.members g) :=
  one_out_of_service (by decide) (fun _ => rfl) replicaUpdate

theorem update_completed_two_hosts :
    let c := run (act twoHosts) (begun twoHosts (fun _ => failoverMember) (some 0))
      (replicaUpdate ++ leaderUpdate)
    (∀ k, ∀ h ∈ twoHosts.group k, (c.rollout.done h).map Prod.fst = k.tasks) ∧
    (∀ h, InService twoHosts failoverMember (c.rollout.members h)) ∧
    (∀ h, h ∉ twoHosts.group .primary → h ∉ twoHosts.group .secondary →
      c.rollout.members h = failoverMember) ∧
    (anyUpdateFailed twoHosts c = true ↔ ∃ h ∈ twoHosts.hosts, ∃ d ∈ c.rollout.done h,
      twoHosts.updates d.1 = true ∧ d.2.success = false) :=
  update_completed (by decide) (fun _ => rfl) (fun _ => rfl) (by decide)
    (replicaUpdate ++ leaderUpdate) (by decide +kernel) (by decide +kernel)

end RollingUpdate
