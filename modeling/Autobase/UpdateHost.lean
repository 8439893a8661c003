import Autobase.BatchRuns
import Autobase.UpdateTraffic

/-! # The update of a host

What each task of the rolling update does on one host, with the answer that it gets there. -/
namespace UpdateHost

open UpdateTraffic BatchRuns

/-- The tags as Patroni has loaded them. -/
structure Tags where
  noloadbalance : Bool
  nosync : Bool
  nofailover : Bool
  deriving DecidableEq, Repr

/-- patroni.yml, the service, and the results that the tasks register for the host. -/
structure Member where
  contents : Text
  tags : Tags
  running : Bool
  enabled : Bool
  leaderStatus : Option ℤ
  switchover : Option Bool
  recheckStatus : Option ℤ
  retry : Option Bool
  rebootRequired : Bool
  updatePostgresFailed : Bool
  updatePatroniFailed : Bool
  updateSystemFailed : Bool

inductive HostGroup
  | primary
  | secondary
  deriving DecidableEq, Repr

/-- The answer to the request for the leader that puts a host into the group. -/
def HostGroup.status : HostGroup → ℤ
  | .primary => 200
  | .secondary => 503

/-- The variables of the playbook, the hosts of `postgres_cluster` with their first answers, and
how Patroni reads the tags of its file. -/
structure Setting (η : Type*) where
  target : Option String
  reboots : Bool
  hosts : List η
  status : η → ℤ
  loads : Text → Tags

inductive UpdateTask
  -- switchover.yml
  | checkRole
  | switchover
  | recheckRole
  | retrySwitchover
  | checkReplica
  -- stop_traffic.yml
  | enableTags
  | reload
  | replicaUnavailable
  | waitTransactions
  -- stop_services.yml
  | isReady
  | checkpoint (g : HostGroup)
  | stopPatroni (g : HostGroup)
  -- postgres.yml, patroni.yml, system.yml
  | updatePostgres
  | updatePatroni
  | updateSystem
  | checkReboot
  | reboot
  -- start_services.yml
  | startPatroni
  | waitPort
  | checkHealth
  -- start_traffic.yml
  | disableTags
  | replicaAvailable
  deriving DecidableEq, Repr

/-- The status of a request, or the exit code of any other task. `took` says which changes a task
made that failed. -/
structure Answer where
  reached : Bool
  code : ℤ
  took : ℕ → Bool

namespace Answer

def success (a : Answer) : Bool := a.reached && decide (a.code = 0)

def status (a : Answer) (wanted : ℤ) : Bool := a.reached && decide (a.code = wanted)

def made (a : Answer) (i : ℕ) : Bool := a.success || a.took i

end Answer

namespace Setting

variable {η : Type*} [DecidableEq η] (S : Setting η)

/-- The group in the inventory that the first play makes. -/
def group (g : HostGroup) : List η := S.hosts.filter fun h => decide (S.status h = g.status)

def targets (names : List String) : Bool := names.contains (S.target.getD "postgres")

/-- `inventory_hostname in groups[..]`, which is an error where the group was never made. -/
def isIn (g : HostGroup) (h : η) : Option Bool :=
  if (S.group g).isEmpty then none else some (decide (h ∈ S.group g))

end Setting

def editTags (value : Bool) (a : Answer) (contents : Text) : Text :=
  Tag.all.zipIdx.foldl (fun c t => if a.made t.2 then replaceTag value c t.1 else c) contents

def Member.reloaded (loads : Text → Tags) (m : Member) : Member :=
  { m with running := true, enabled := true, tags := loads m.contents }

def Member.started (loads : Text → Tags) (m : Member) : Member :=
  { m with running := true, tags := if m.running then m.tags else loads m.contents }

variable {η : Type*} [DecidableEq η]

def perform (S : Setting η) : Perform η UpdateTask Member Answer := fun t h m a =>
  match t with
  | .checkRole => ({ m with leaderStatus := some a.code }, a.status 200)
  | .switchover =>
    if m.leaderStatus = some 200 then ({ m with switchover := some a.success }, a.reached)
    else ({ m with switchover := some true }, true)
  | .recheckRole =>
    if m.switchover = some false then ({ m with recheckStatus := some a.code }, a.reached)
    else ({ m with recheckStatus := none }, true)
  | .retrySwitchover =>
    if m.switchover = some false ∧ m.recheckStatus = some 200 then
      ({ m with retry := some a.success }, a.reached)
    else ({ m with retry := some true }, true)
  | .checkReplica =>
    if m.switchover = some true ∨ m.recheckStatus ≠ some 200 ∨ m.retry = some true then
      (m, a.status 200)
    else (m, true)
  | .enableTags => ({ m with contents := editTags true a m.contents }, a.success)
  | .reload => (if a.made 0 then m.reloaded S.loads else m, a.success)
  | .replicaUnavailable => (m, a.status 503)
  | .waitTransactions => (m, a.success)
  | .isReady => (m, a.success)
  | .checkpoint g =>
    match S.isIn g h with
    | none => (m, false)
    | some false => (m, true)
    | some true => (m, a.success)
  | .stopPatroni g =>
    match S.isIn g h with
    | none => (m, false)
    | some false => (m, true)
    | some true => (if a.made 0 then { m with running := false } else m, a.success)
  | .updatePostgres =>
    if S.targets ["postgres", "system"] then
      ({ m with updatePostgresFailed := m.updatePostgresFailed || !a.success }, a.reached)
    else (m, true)
  | .updatePatroni =>
    if S.targets ["patroni", "system"] then
      ({ m with updatePatroniFailed := m.updatePatroniFailed || !a.success }, a.reached)
    else (m, true)
  | .updateSystem =>
    if S.targets ["system"] then
      ({ m with updateSystemFailed := m.updateSystemFailed || !a.success }, a.reached)
    else (m, true)
  | .checkReboot =>
    if S.targets ["system"] && S.reboots then
      ({ m with rebootRequired := decide (a.code ≠ 0) }, a.reached)
    else ({ m with rebootRequired := false }, true)
  | .reboot =>
    if m.rebootRequired then
      (if a.made 0 then { m with running := m.enabled, tags := S.loads m.contents } else m,
        a.success)
    else (m, true)
  | .startPatroni => (if a.made 0 then m.started S.loads else m, a.success)
  | .waitPort => (m, a.success)
  | .checkHealth => (m, a.status 200)
  | .disableTags => ({ m with contents := editTags false a m.contents }, a.success)
  | .replicaAvailable => (m, a.status 200)

variable {S : Setting η} {h : η} {m n : Member} {a : Answer} {t : UpdateTask}
  {ds : List (UpdateTask × Answer)}

theorem made_of_success (ha : a.success = true) (i : ℕ) : a.made i = true := by
  rw [Answer.made, ha, Bool.true_or]

theorem editTags_of_success (ha : a.success = true) (value : Bool) (contents : Text) :
    editTags value a contents = Tag.all.foldl (replaceTag value) contents := by
  simp [editTags, Tag.all, made_of_success ha]

/-- The edit of patroni.yml that a task makes when it succeeds. -/
def edit : UpdateTask → Text → Text
  | .enableTags, contents => enable contents
  | .disableTags, contents => disable contents
  | _, contents => contents

theorem contents_perform (hok : (perform S t h m a).2 = true) :
    (perform S t h m a).1.contents = edit t m.contents := by
  cases t
  case enableTags => exact editTags_of_success hok true m.contents
  case disableTags => exact editTags_of_success hok false m.contents
  all_goals first
    | rfl
    | dsimp only [perform, edit]; (repeat' split) <;> rfl

def Member.updateFailed (m : Member) : Bool :=
  m.updatePostgresFailed || m.updatePatroniFailed || m.updateSystemFailed

/-- The tasks that install something, for the targets of the play. -/
def Setting.updates (S : Setting η) : UpdateTask → Bool
  | .updatePostgres => S.targets ["postgres", "system"]
  | .updatePatroni => S.targets ["patroni", "system"]
  | .updateSystem => S.targets ["system"]
  | _ => false

/-- An update that fails is noted, and the play goes on. -/
theorem updateFailed_perform : (perform S t h m a).1.updateFailed =
    (m.updateFailed || (S.updates t && !a.success)) := by
  cases t
  case updatePostgres =>
    cases htarget : S.targets ["postgres", "system"]
    · simp [perform, Setting.updates, htarget]
    · simp [perform, Setting.updates, htarget, Member.updateFailed, Bool.or_assoc, Bool.or_comm,
        Bool.or_left_comm]
  case updatePatroni =>
    cases htarget : S.targets ["patroni", "system"]
    · simp [perform, Setting.updates, htarget]
    · simp [perform, Setting.updates, htarget, Member.updateFailed, Bool.or_assoc, Bool.or_comm,
        Bool.or_left_comm]
  case updateSystem =>
    cases htarget : S.targets ["system"]
    · simp [perform, Setting.updates, htarget]
    · simp [perform, Setting.updates, htarget, Member.updateFailed, Bool.or_assoc, Bool.or_comm,
        Bool.or_left_comm]
  all_goals
    change _ = (m.updateFailed || (false && !a.success))
    rw [Bool.false_and, Bool.or_false]
    first
    | rfl
    | dsimp only [perform]; (repeat' split) <;> rfl

/-- The flags say whether one of the updates has failed. -/
theorem updateFailed_of_did (hd : Did (perform S) h m ds n) : n.updateFailed =
    (m.updateFailed || ds.any fun d => S.updates d.1 && !d.2.success) := by
  induction hd with
  | none => rw [List.any_nil, Bool.or_false]
  | @next ds n t a hd hok ih =>
    rw [updateFailed_perform, ih, List.any_append, Bool.or_assoc, List.any_cons, List.any_nil,
      Bool.or_false]

/-! ## The tasks of a host -/

def switchoverTasks : List UpdateTask :=
  [.checkRole, .switchover, .recheckRole, .retrySwitchover, .checkReplica]

def stopTraffic : List UpdateTask := [.enableTags, .reload, .replicaUnavailable, .waitTransactions]

def stopServices : List UpdateTask :=
  [.isReady, .checkpoint .secondary, .stopPatroni .secondary, .checkpoint .primary,
    .stopPatroni .primary]

def updates : List UpdateTask :=
  [.updatePostgres, .updatePatroni, .updateSystem, .checkReboot, .reboot]

def startServices : List UpdateTask := [.startPatroni, .waitPort, .checkHealth, .isReady]

def startTraffic : List UpdateTask := [.disableTags, .reload, .replicaAvailable]

/-- `UPDATE: Secondary` -/
def secondaryTasks : List UpdateTask :=
  stopTraffic ++ stopServices ++ updates ++ startServices ++ startTraffic

/-- `UPDATE: Primary` -/
def primaryTasks : List UpdateTask := switchoverTasks ++ secondaryTasks

def HostGroup.tasks : HostGroup → List UpdateTask
  | .primary => primaryTasks
  | .secondary => secondaryTasks

/-- The host runs with patroni.yml as it was, or with the tags of its traffic off. -/
def InService (S : Setting η) (m n : Member) : Prop :=
  n.running = true ∧ ((n.contents = m.contents ∧ n.tags = m.tags) ∨
    (n.contents = disable m.contents ∧ n.tags = S.loads n.contents))

theorem reload_perform (hok : (perform S .reload h m a).2 = true) :
    (perform S .reload h m a).1 = m.reloaded S.loads := by
  have hmade : a.made 0 = true := made_of_success hok 0
  rw [perform, if_pos hmade]

/-- All tasks bring the host back, with nothing left in patroni.yml of its time out. -/
theorem restored {g : HostGroup} (hd : Did (perform S) h m ds n)
    (hds : ds.map Prod.fst = g.tasks) :
    n.running = true ∧ n.contents = disable m.contents ∧ n.tags = S.loads n.contents := by
  have hcontents : n.contents = disable m.contents := by
    have hvalue := did_value (F := edit) (V := Member.contents)
      (fun t n a hok => contents_perform hok) hd
    rw [hvalue, hds]
    cases g <;> exact disable_enable
  have hlast : ∃ front, g.tasks = front ++ [.reload] ++ [.replicaAvailable] := by
    cases g
    · exact ⟨primaryTasks.dropLast.dropLast, rfl⟩
    · exact ⟨secondaryTasks.dropLast.dropLast, rfl⟩
  obtain ⟨front, hfront⟩ := hlast
  rw [hfront] at hds
  obtain ⟨ds, last, rfl, hds, hlast⟩ := List.map_eq_append_iff.mp hds
  obtain ⟨ds, reload, rfl, -, hreload⟩ := List.map_eq_append_iff.mp hds
  obtain ⟨⟨_, a⟩, rfl, rfl⟩ := List.map_eq_singleton_iff.mp hlast
  obtain ⟨⟨_, b⟩, rfl, rfl⟩ := List.map_eq_singleton_iff.mp hreload
  obtain ⟨k, hd, -, rfl⟩ := did_concat.mp hd
  obtain ⟨l, -, hok, rfl⟩ := did_concat.mp hd
  refine ⟨?_, hcontents, ?_⟩
  · rw [reload_perform hok]
    rfl
  · rw [reload_perform hok]
    rfl

end UpdateHost
