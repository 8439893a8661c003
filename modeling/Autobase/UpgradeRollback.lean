import Autobase.TransitionRuns
import Mathlib.Data.List.Infix

/-! # Rollback of an upgrade

The tasks of the pg_upgrade playbook and of rollback.yml that touch Patroni, the servers, the
control file or patroni.yml, run over all hosts of a play with failures, stops and crashes in
between. Tasks without such an effect can only end a play, which the operator can do at any
point. -/
namespace UpgradeRollback

open TransitionRuns

inductive DataDir where
  | old | new
  deriving DecidableEq

/-- A host: the directory in patroni.yml and in its backup, the directory a running Patroni was
started with, the running servers, the version numbers in the two control files of the old
directory, whether the old binaries are there, and the registered variables. -/
structure Node where
  dataDir : DataDir
  backup : Option DataDir
  patroni : Option DataDir
  oldServer : Bool
  newServer : Bool
  pgControl : Option ℕ
  pgControlOld : Option ℕ
  oldBindir : Bool
  pgCtlStatusNew : Bool
  pgControlVersion : String

structure Settings where
  pgNewVersion : String
  schemaCompatibilityCheck : Bool
  pgbouncerPoolPause : Bool

/-- The groups of a play. -/
structure Groups (Host : Type) where
  primary : List Host
  secondary : List Host

/-- How far a task came on a host. -/
inductive Extent where
  | nothing | partly | wholly
  deriving DecidableEq

/-- The result of a task on a host. A host the operator's stop kept from finishing counts as
unreachable. -/
inductive Outcome where
  | done
  | failed (extent : Extent)
  | unreachable (extent : Extent)
  deriving DecidableEq

def Outcome.extent : Outcome → Extent
  | .done => .wholly
  | .failed e => e
  | .unreachable e => e

/-- What one task meets: its results, and the states of the members in the answer of the REST
API of a host. -/
structure Report (Host : Type) where
  outcome : Host → Outcome
  members : Host → List String

/-! ## The tasks of the upgrade -/

inductive UpgradeTask where
  | startNewToCheckSchema
  | stopNewToReinitdb
  | backupPatroniConfig
  | editPatroniConfig
  | stopPatroni
  | checkReplicationLag
  | pausePgbouncer
  | stopOldOnLeader
  | stopOldOnReplica
  | stopOld
  | stopNew
  | checkCheckpointLocation
  | pgUpgradeLink
  | rsyncReplica
  | startPatroniOnLeader
  | startPatroniOnReplica
  | deleteOldDataDirectory
  | removeOldPackages
  deriving DecidableEq

def upgradeTasks (S : Settings) : List UpgradeTask :=
  (if S.schemaCompatibilityCheck then [.startNewToCheckSchema, .stopNewToReinitdb] else []) ++
    ([.backupPatroniConfig, .editPatroniConfig, .stopPatroni, .checkReplicationLag] ++
      ((if S.pgbouncerPoolPause then [.pausePgbouncer] else []) ++
        [.stopOldOnLeader, .stopOldOnReplica, .stopOld, .stopNew, .checkCheckpointLocation,
          .pgUpgradeLink, .rsyncReplica, .startPatroniOnLeader, .startPatroniOnReplica,
          .deleteOldDataDirectory, .removeOldPackages]))

def Node.startPatroni (n : Node) : Node :=
  if n.patroni.isSome then n else { n with patroni := some n.dataDir }

def Node.renameControl (n : Node) : Node :=
  { n with pgControl := none, pgControlOld := n.pgControl }

/-- The effect of a task that came to its end on a host. -/
def UpgradeTask.effect (isLeader : Bool) (leader : Node) (t : UpgradeTask) (n : Node) : Node :=
  match t with
  | .startNewToCheckSchema => if isLeader then { n with newServer := true } else n
  | .stopNewToReinitdb => if isLeader then { n with newServer := false } else n
  | .backupPatroniConfig => { n with backup := some n.dataDir }
  | .editPatroniConfig => { n with dataDir := .new }
  | .stopPatroni => { n with patroni := none }
  | .stopOldOnLeader => if isLeader then { n with oldServer := false } else n
  | .stopOldOnReplica => if isLeader then n else { n with oldServer := false }
  | .stopOld => { n with oldServer := false }
  | .stopNew => { n with newServer := false }
  | .pgUpgradeLink => if isLeader then n.renameControl else n
  | .rsyncReplica =>
    if isLeader then n
    else { n with pgControl := leader.pgControl, pgControlOld := leader.pgControlOld }
  | .startPatroniOnLeader => if isLeader then n.startPatroni else n
  | .startPatroniOnReplica => if isLeader then n else n.startPatroni
  | .deleteOldDataDirectory => { n with pgControl := none, pgControlOld := none }
  | .removeOldPackages => { n with oldBindir := false }
  | .checkReplicationLag | .pausePgbouncer | .checkCheckpointLocation => n

/-- A task that ends early has done nothing, except that pg_upgrade renames the control file
when it starts to link. -/
def UpgradeTask.reach (isLeader : Bool) (leader : Node) (t : UpgradeTask) (e : Extent)
    (n : Node) : Node :=
  match e with
  | .wholly => t.effect isLeader leader n
  | .partly => if t = .pgUpgradeLink ∧ isLeader = true then n.renameControl else n
  | .nothing => n

/-- The tasks whose failure on the leader includes rollback.yml, and the hosts that run it: the
registered lag is defined on the leader only. -/
def UpgradeTask.rollbackHosts {Host : Type} (g : Groups Host) : UpgradeTask → Option (List Host)
  | .checkReplicationLag => some g.primary
  | .pausePgbouncer | .checkCheckpointLocation | .pgUpgradeLink => some (g.primary ++ g.secondary)
  | _ => none

/-! ## The tasks of the rollback -/

inductive RollbackTask where
  | abortIfPatroniRunning
  | statusNewPostgreSQL
  | abortIfNewRunning
  | renamePgControl
  | readPgControlVersion
  | abortIfVersionMatches
  | restorePatroniConfig
  | ensureOldPaths
  | startPatroniOnLeader
  | startPatroniOnReplica
  deriving DecidableEq

def rollbackTasks : List RollbackTask :=
  [.abortIfPatroniRunning, .statusNewPostgreSQL, .abortIfNewRunning, .renamePgControl,
    .readPgControlVersion, .abortIfVersionMatches, .restorePatroniConfig, .ensureOldPaths,
    .startPatroniOnLeader, .startPatroniOnReplica]

/-- The first two characters of the version number. -/
def controlPrefix (n : ℕ) : String := String.ofList ((toString n).toList.take 2)

def withoutDots (version : String) : String :=
  String.ofList (version.toList.filter fun c => c ≠ '.')

variable {Host : Type} [DecidableEq Host]

def Groups.hosts (g : Groups Host) : List Host := g.primary ++ g.secondary

def Groups.total (g : Groups Host) : ℕ := g.primary.length + g.secondary.length

/-- A rollback task on a host; `none` is a failure of its own. -/
def RollbackTask.perform (S : Settings) (g : Groups Host) (members : List String) (h : Host)
    (t : RollbackTask) (n : Node) : Option Node :=
  match t with
  | .abortIfPatroniRunning =>
    if h ∈ g.primary ∧ (members.filter fun m => m ≠ "stopped").length = g.total then none
    else some n
  | .statusNewPostgreSQL => some { n with pgCtlStatusNew := n.newServer }
  | .abortIfNewRunning => if n.pgCtlStatusNew then none else some n
  | .renamePgControl =>
    match n.pgControlOld with
    | none => some n
    | some v => some { n with pgControl := some v, pgControlOld := none }
  | .readPgControlVersion =>
    if h ∈ g.primary then
      match n.pgControl with
      | none => none
      | some v => if n.oldBindir then some { n with pgControlVersion := controlPrefix v } else none
    else some n
  | .abortIfVersionMatches =>
    if h ∈ g.primary ∧ n.pgControlVersion = withoutDots S.pgNewVersion then none else some n
  | .restorePatroniConfig => n.backup.map fun d => { n with dataDir := d }
  | .ensureOldPaths => some { n with dataDir := .old }
  | .startPatroniOnLeader => some (if h ∈ g.primary then n.startPatroni else n)
  | .startPatroniOnReplica => some (if h ∈ g.secondary then n.startPatroni else n)

/-- The task starts Patroni on the old data directory of the host. -/
def RollbackTask.startsOld (g : Groups Host) (h : Host) (t : RollbackTask) (n : Node) : Bool :=
  (match t with
    | .startPatroniOnLeader => decide (h ∈ g.primary)
    | .startPatroniOnReplica => decide (h ∈ g.secondary)
    | _ => false) && n.patroni.isNone && decide (n.dataDir = .old)

/-! ## Plays -/

inductive Play (Host : Type) where
  | none
  | upgrade (todo : List UpgradeTask)
  | rollback (groups : Groups Host) (hosts : List Host) (todo : List RollbackTask)

def Play.upgradeWith : List UpgradeTask → Play Host
  | [] => .none
  | t :: todo => .upgrade (t :: todo)

def Play.rollbackWith (g : Groups Host) (hosts : List Host) : List RollbackTask → Play Host
  | [] => .none
  | t :: todo => .rollback g hosts (t :: todo)

/-- The state of the cluster and, of its history, whether pg_upgrade --link has completed,
whether a server was started on the new directory since, and whether a rollback started
Patroni on the old directory after that. -/
structure State (Host : Type) where
  node : Host → Node
  play : Play Host
  linked : Bool
  newStarted : Bool
  oldRestarted : Bool

inductive Event (Host : Type) where
  | task (report : Report Host)
  | stop
  | rollbackPlaybook (groups : Groups Host)
  | serverStarts (host : Host) (dir : DataDir)
  | serverStops (host : Host) (dir : DataDir)
  | patroniStarts (host : Host)
  | patroniStops (host : Host)

def State.update (s : State Host) (h : Host) (f : Node → Node) : State Host :=
  { s with node := fun h' => if h' = h then f (s.node h') else s.node h' }

def Node.setServer (n : Node) (d : DataDir) (running : Bool) : Node :=
  match d with
  | .old => { n with oldServer := running }
  | .new => { n with newServer := running }

/-- The hosts of an upgrade: the one leader and its replicas. -/
structure Hosts (Host : Type) where
  leader : Host
  replicas : List Host

def Hosts.groups (H : Hosts Host) : Groups Host := ⟨[H.leader], H.replicas⟩

/-- Any error ends the play, unless the task includes the rollback and has failed on a leader
that can be reached. -/
def upgradePlay (H : Hosts Host) (r : Report Host) (t : UpgradeTask) (todo : List UpgradeTask) :
    Play Host :=
  if ∀ h ∈ H.leader :: H.replicas, r.outcome h = .done then .upgradeWith todo
  else match t.rollbackHosts H.groups, r.outcome H.leader with
    | some hosts, .failed _ =>
      if ∀ h ∈ H.replicas, r.outcome h = .done then .rollbackWith H.groups hosts rollbackTasks
      else .none
    | _, _ => .none

def upgradeStep (H : Hosts Host) (r : Report Host) (t : UpgradeTask) (todo : List UpgradeTask)
    (s : State Host) : State Host where
  node h :=
    if h ∈ H.leader :: H.replicas then
      t.reach (decide (h = H.leader)) (s.node H.leader) (r.outcome h).extent (s.node h)
    else s.node h
  play := upgradePlay H r t todo
  linked := s.linked || (t = .pgUpgradeLink && (r.outcome H.leader).extent = .wholly)
  newStarted := s.newStarted || (s.linked && t = .startNewToCheckSchema)
  oldRestarted := s.oldRestarted

/-- The task does what it should on every host. -/
def rollbackPasses (S : Settings) (g : Groups Host) (hosts : List Host) (r : Report Host)
    (t : RollbackTask) (s : State Host) : Prop :=
  ∀ h ∈ hosts, r.outcome h = .done ∧ (t.perform S g (r.members h) h (s.node h)).isSome

instance (S : Settings) (g : Groups Host) (hosts : List Host) (r : Report Host)
    (t : RollbackTask) (s : State Host) : Decidable (rollbackPasses S g hosts r t s) :=
  inferInstanceAs (Decidable (∀ h ∈ hosts, _))

def rollbackStep (S : Settings) (g : Groups Host) (hosts : List Host) (r : Report Host)
    (t : RollbackTask) (todo : List RollbackTask) (s : State Host) : State Host where
  node h :=
    if h ∈ hosts ∧ (r.outcome h).extent = .wholly then
      (t.perform S g (r.members h) h (s.node h)).getD (s.node h)
    else s.node h
  play := if rollbackPasses S g hosts r t s then .rollbackWith g hosts todo else .none
  linked := s.linked
  newStarted := s.newStarted
  oldRestarted := s.oldRestarted || (s.newStarted && hosts.any fun h =>
    decide ((r.outcome h).extent = .wholly) && t.startsOld g h (s.node h))

def step (S : Settings) (H : Hosts Host) (s : State Host) : Event Host → State Host
  | .task r =>
    match s.play with
    | .none => s
    | .upgrade [] | .rollback _ _ [] => { s with play := .none }
    | .upgrade (t :: todo) => upgradeStep H r t todo s
    | .rollback g hosts (t :: todo) => rollbackStep S g hosts r t todo s
  | .stop => { s with play := .none }
  | .rollbackPlaybook g =>
    match s.play with
    | .none => { s with play := .rollbackWith g g.hosts rollbackTasks }
    | _ => s
  | .serverStarts h d =>
    { s.update h (·.setServer d true) with
      newStarted := s.newStarted || (s.linked && decide (d = .new)) }
  | .serverStops h d => s.update h (·.setServer d false)
  | .patroniStarts h => s.update h Node.startPatroni
  | .patroniStops h => s.update h fun n => { n with patroni := none }

/-- An upgrade is about to run; the hosts may be in any state. -/
structure Starts (S : Settings) (s : State Host) : Prop where
  play : s.play = .upgrade (upgradeTasks S)
  linked : s.linked = false
  newStarted : s.newStarted = false
  oldRestarted : s.oldRestarted = false

/-! ## What the checks of a rollback find -/

/-- The control file that the version is read from, which gets its name back first. -/
def controlFile (todo : List RollbackTask) (n : Node) : Option ℕ :=
  if .renamePgControl ∈ todo then n.pgControlOld.or n.pgControl else n.pgControl

/-- A task that is still to come stops the rollback on the host: pg_ctl finds the new server
running or has found it so, on a leader the version of pg_control is not read or begins like the
new one, or patroni.yml has no backup. -/
def Refused (S : Settings) (g : Groups Host) (h : Host) (todo : List RollbackTask) (n : Node) :
    Prop :=
  (.statusNewPostgreSQL ∈ todo ∧ n.newServer = true) ∨
    (.statusNewPostgreSQL ∉ todo ∧ .abortIfNewRunning ∈ todo ∧ n.pgCtlStatusNew = true) ∨
    (.readPgControlVersion ∈ todo ∧ h ∈ g.primary ∧
      (n.oldBindir = false ∨
        (controlFile todo n).all (fun v => controlPrefix v = withoutDots S.pgNewVersion) = true)) ∨
    (.readPgControlVersion ∉ todo ∧ .abortIfVersionMatches ∈ todo ∧ h ∈ g.primary ∧
      n.pgControlVersion = withoutDots S.pgNewVersion) ∨
    (.restorePatroniConfig ∈ todo ∧ n.backup = none)

instance (S : Settings) (g : Groups Host) (h : Host) (todo : List RollbackTask) (n : Node) :
    Decidable (Refused S g h todo n) :=
  inferInstanceAs (Decidable (_ ∨ _))

/-- The rollback is refused on one of its hosts. -/
def State.Refuses (S : Settings) (s : State Host) : Prop :=
  match s.play with
  | .rollback g hosts todo => ∃ h ∈ hosts, Refused S g h todo (s.node h)
  | _ => False

instance (S : Settings) (s : State Host) : Decidable (s.Refuses S) := by
  unfold State.Refuses
  split
  all_goals infer_instance

/-- The next task of a rollback asks pg_ctl for the new server. -/
def State.asks (s : State Host) : Bool :=
  match s.play with
  | .rollback _ _ (.statusNewPostgreSQL :: _) => true
  | _ => false

/-- A rollback has asked pg_ctl. -/
def State.asked (s : State Host) : Bool :=
  match s.play with
  | .rollback _ _ todo => decide (.statusNewPostgreSQL ∉ todo)
  | _ => false

/-- A rollback that asks pg_ctl after a server was started on the new directory is refused, and so
is one while which a server is started there after the question. -/
def Clear (S : Settings) (s : State Host) : Event Host → Prop
  | .task _ => s.asks = true → s.newStarted = true → s.Refuses S
  | .serverStarts _ .new => s.linked = true → s.asked = true → s.Refuses S
  | _ => True

instance (S : Settings) (s : State Host) (e : Event Host) : Decidable (Clear S s e) := by
  unfold Clear
  split
  all_goals infer_instance

/-! ## Safety -/

/-- Once pg_ctl has been asked, a rollback after a start on the new directory is refused. -/
structure Inv (S : Settings) (s : State Host) : Prop where
  suffix : ∀ g hosts todo, s.play = .rollback g hosts todo → todo <:+ rollbackTasks
  refused : s.asked = true → s.newStarted = true → s.Refuses S
  intact : s.oldRestarted = false

variable {S : Settings} {H : Hosts Host} {s : State Host}

theorem startsOld_task {g : Groups Host} {h : Host} {t : RollbackTask} {n : Node}
    (ht : t.startsOld g h n = true) :
    t = .startPatroniOnLeader ∨ t = .startPatroniOnReplica := by
  cases t <;> simp_all [RollbackTask.startsOld]

/-- What is left of the tasks behind one of them. -/
theorem todo_of_suffix {t : RollbackTask} {todo : List RollbackTask}
    (h : t :: todo <:+ rollbackTasks) : t :: todo ∈ rollbackTasks.tails.dropLast := by
  have hmem := (List.mem_tails _ _).mpr h
  have htails : rollbackTasks.tails = rollbackTasks.tails.dropLast ++ [[]] := rfl
  rw [htails, List.mem_append, List.mem_singleton] at hmem
  exact hmem.resolve_right (List.cons_ne_nil _ _)

omit [DecidableEq Host] in
theorem asked_iff {g : Groups Host} {hosts : List Host} {todo : List RollbackTask}
    (h : s.play = .rollback g hosts todo) :
    s.asked = true ↔ RollbackTask.statusNewPostgreSQL ∉ todo := by
  simp [State.asked, h]

omit [DecidableEq Host] in
theorem refuses_iff {g : Groups Host} {hosts : List Host} {todo : List RollbackTask}
    (h : s.play = .rollback g hosts todo) :
    s.Refuses S ↔ ∃ h ∈ hosts, Refused S g h todo (s.node h) := by
  simp [State.Refuses, h]

omit [DecidableEq Host] in
/-- A play that is no rollback, or one that has all its tasks before it. -/
theorem inv_unasked (h : s.oldRestarted = false)
    (hp : ∀ g hosts todo, s.play = .rollback g hosts todo → todo = rollbackTasks) : Inv S s := by
  refine ⟨?_, ?_, h⟩
  · intro g hosts todo ht
    exact hp g hosts todo ht ▸ List.suffix_refl _
  · intro hasked
    cases hplay : s.play with
    | none => simp [State.asked, hplay] at hasked
    | upgrade todo => simp [State.asked, hplay] at hasked
    | rollback g hosts todo =>
      rw [asked_iff hplay, hp g hosts todo hplay] at hasked
      exact absurd (by decide) hasked

omit [DecidableEq Host] in
theorem upgradePlay_rollback {H : Hosts Host} {r : Report Host} {t : UpgradeTask}
    {ts : List UpgradeTask} {g : Groups Host} {hosts : List Host} {todo : List RollbackTask}
    (h : upgradePlay H r t ts = .rollback g hosts todo) : todo = rollbackTasks := by
  rw [upgradePlay] at h
  split at h
  · cases ts <;> cases h
  · split at h
    · split at h
      · simp only [rollbackTasks, Play.rollbackWith, Play.rollback.injEq] at h
        exact h.2.2.symm
      · cases h
    · cases h

omit [DecidableEq Host] in
theorem rollbackWith_eq {g g' : Groups Host} {hosts hosts' : List Host}
    {todo todo' : List RollbackTask}
    (h : Play.rollbackWith g hosts todo = .rollback g' hosts' todo') :
    g' = g ∧ hosts' = hosts ∧ todo' = todo := by
  cases todo with
  | nil => cases h
  | cons t todo =>
    simp only [Play.rollbackWith, Play.rollback.injEq] at h
    exact ⟨h.1.symm, h.2.1.symm, h.2.2.symm⟩

section Perform

variable {g : Groups Host} {ms : List String} {h : Host} {n m : Node}

theorem perform_abortIfPatroniRunning :
    RollbackTask.abortIfPatroniRunning.perform S g ms h n = some m ↔
      (h ∈ g.primary → (ms.filter fun m => m ≠ "stopped").length ≠ g.total) ∧ m = n := by
  simp only [RollbackTask.perform]
  by_cases hr : h ∈ g.primary ∧ (ms.filter fun m => m ≠ "stopped").length = g.total
  · rw [if_pos hr]
    exact iff_of_false (by simp) fun hne => hne.1 hr.1 hr.2
  · rw [if_neg hr]
    refine ⟨fun he => ⟨fun hp ht => hr ⟨hp, ht⟩, (Option.some.inj he).symm⟩, ?_⟩
    rintro ⟨-, rfl⟩
    rfl

theorem perform_abortIfNewRunning :
    RollbackTask.abortIfNewRunning.perform S g ms h n = some m ↔
      n.pgCtlStatusNew = false ∧ m = n := by
  cases hn : n.pgCtlStatusNew <;> simp [RollbackTask.perform, hn, eq_comm]

theorem perform_renamePgControl :
    RollbackTask.renamePgControl.perform S g ms h n =
      some { n with pgControl := n.pgControlOld.or n.pgControl, pgControlOld := none } := by
  simp only [RollbackTask.perform]
  obtain ⟨_, _, _, _, _, _, suffixed, _, _, _⟩ := n
  cases suffixed <;> rfl

theorem perform_readPgControlVersion (hp : h ∈ g.primary) :
    RollbackTask.readPgControlVersion.perform S g ms h n = some m ↔
      ∃ v, n.pgControl = some v ∧ n.oldBindir = true ∧
        m = { n with pgControlVersion := controlPrefix v } := by
  simp only [RollbackTask.perform, if_pos hp]
  cases n.pgControl with
  | none => simp
  | some v => cases n.oldBindir <;> simp [eq_comm]

theorem perform_abortIfVersionMatches (hp : h ∈ g.primary) :
    RollbackTask.abortIfVersionMatches.perform S g ms h n = some m ↔
      n.pgControlVersion ≠ withoutDots S.pgNewVersion ∧ m = n := by
  simp only [RollbackTask.perform, hp, true_and]
  split
  · next hv => simp [hv]
  · next hv => simp [hv, eq_comm]

/-- The version is read and checked on the leader only. -/
theorem perform_secondary (hp : h ∉ g.primary) :
    RollbackTask.readPgControlVersion.perform S g ms h n = some n ∧
      RollbackTask.abortIfVersionMatches.perform S g ms h n = some n := by
  simp [RollbackTask.perform, hp]

end Perform

variable {g : Groups Host} {h : Host} {t : RollbackTask} {todo : List RollbackTask} {n n' : Node}

/-- A refused host stays refused by the tasks that are left, as long as no task fails on it. -/
theorem refused_perform {ms : List String} (htodo : t :: todo <:+ rollbackTasks)
    (hrefused : Refused S g h (t :: todo) n) (hperform : t.perform S g ms h n = some n') :
    Refused S g h todo n' := by
  have hmem := todo_of_suffix htodo
  simp only [rollbackTasks, List.tails, List.dropLast_cons_cons, List.dropLast_singleton,
    List.mem_cons, List.cons.injEq, List.not_mem_nil, or_false] at hmem
  rcases hmem with ⟨rfl, rfl⟩ | ⟨rfl, rfl⟩ | ⟨rfl, rfl⟩ | ⟨rfl, rfl⟩ | ⟨rfl, rfl⟩ | ⟨rfl, rfl⟩ |
    ⟨rfl, rfl⟩ | ⟨rfl, rfl⟩ | ⟨rfl, rfl⟩ | ⟨rfl, rfl⟩
  · -- the REST API is asked
    obtain ⟨-, rfl⟩ := perform_abortIfPatroniRunning.mp hperform
    simpa [Refused, controlFile] using hrefused
  · -- pg_ctl answers for the server that runs
    cases hperform
    simpa [Refused, controlFile] using hrefused
  · -- its answer is no
    obtain ⟨hanswer, rfl⟩ := perform_abortIfNewRunning.mp hperform
    simpa [Refused, controlFile, hanswer] using hrefused
  · -- the control file gets its name back
    rw [perform_renamePgControl] at hperform
    cases hperform
    simpa [Refused, controlFile] using hrefused
  · -- the version is read on a leader
    by_cases hp : h ∈ g.primary
    · obtain ⟨v, hv, hbindir, rfl⟩ := (perform_readPgControlVersion hp).mp hperform
      simpa [Refused, controlFile, hp, hv, hbindir] using hrefused
    · rw [(perform_secondary hp).1] at hperform
      cases hperform
      simpa [Refused, hp] using hrefused
  · -- the version is another one
    by_cases hp : h ∈ g.primary
    · obtain ⟨hversion, rfl⟩ := (perform_abortIfVersionMatches hp).mp hperform
      simpa [Refused, hversion] using hrefused
    · rw [(perform_secondary hp).2] at hperform
      cases hperform
      simpa [Refused, hp] using hrefused
  · -- there is a backup
    have hbackup : n.backup = none := by simpa [Refused] using hrefused
    rw [RollbackTask.perform, hbackup] at hperform
    cases hperform
  all_goals simp [Refused] at hrefused

theorem asked_starts (htodo : t :: todo <:+ rollbackTasks)
    (ht : t = .startPatroniOnLeader ∨ t = .startPatroniOnReplica) :
    RollbackTask.statusNewPostgreSQL ∉ t :: todo := by
  have hchecks : ∀ l ∈ rollbackTasks.tails, ∀ t ∈ l.head?,
      (t = .startPatroniOnLeader ∨ t = .startPatroniOnReplica) →
        RollbackTask.statusNewPostgreSQL ∉ l := by
    decide
  exact hchecks _ ((List.mem_tails _ _).mpr htodo) t rfl ht

omit [DecidableEq Host] in
/-- Before the starts nothing is refused any more. -/
theorem not_refused_starts (htodo : t :: todo <:+ rollbackTasks)
    (ht : t = .startPatroniOnLeader ∨ t = .startPatroniOnReplica) :
    ¬ Refused S g h (t :: todo) n := by
  have hchecks : ∀ l ∈ rollbackTasks.tails, ∀ t ∈ l.head?,
      (t = .startPatroniOnLeader ∨ t = .startPatroniOnReplica) →
        RollbackTask.statusNewPostgreSQL ∉ l ∧ RollbackTask.abortIfNewRunning ∉ l ∧
          RollbackTask.readPgControlVersion ∉ l ∧ RollbackTask.abortIfVersionMatches ∉ l ∧
            RollbackTask.restorePatroniConfig ∉ l := by
    decide
  obtain ⟨h1, h2, h3, h4, h5⟩ := hchecks _ ((List.mem_tails _ _).mpr htodo) t rfl ht
  simp [Refused, h1, h2, h3, h4, h5]

theorem rollbackStep_play {hosts : List Host} {r : Report Host} {g' : Groups Host}
    {hosts' : List Host} {todo' : List RollbackTask}
    (h : (rollbackStep S g hosts r t todo s).play = .rollback g' hosts' todo') :
    rollbackPasses S g hosts r t s ∧ g' = g ∧ hosts' = hosts ∧ todo' = todo := by
  simp only [rollbackStep] at h
  split at h
  · next hpasses => exact ⟨hpasses, rollbackWith_eq h⟩
  · cases h

/-- A task that passes keeps the refusal of a task that is left. -/
theorem refuses_rollbackStep {hosts : List Host} {r : Report Host}
    (hplay : s.play = .rollback g hosts (t :: todo)) (htodo : t :: todo <:+ rollbackTasks)
    (hplay' : (rollbackStep S g hosts r t todo s).play = .rollback g hosts todo)
    (hpasses : rollbackPasses S g hosts r t s) (hrefuses : s.Refuses S) :
    (rollbackStep S g hosts r t todo s).Refuses S := by
  obtain ⟨h, hmem, hrefused⟩ := (refuses_iff hplay).mp hrefuses
  obtain ⟨hdone, hsome⟩ := hpasses h hmem
  obtain ⟨n, hn⟩ := Option.isSome_iff_exists.mp hsome
  have hnode : (rollbackStep S g hosts r t todo s).node h = n := by
    simp [rollbackStep, hmem, hdone, Outcome.extent, hn]
  refine (refuses_iff hplay').mpr ⟨h, hmem, ?_⟩
  rw [hnode]
  exact refused_perform htodo hrefused hn

theorem inv_rollbackStep (hs : Inv S s) {hosts : List Host} {r : Report Host}
    (hplay : s.play = .rollback g hosts (t :: todo))
    (hclear : t = .statusNewPostgreSQL → s.newStarted = true → s.Refuses S) :
    Inv S (rollbackStep S g hosts r t todo s) := by
  have hsuffix := hs.suffix g hosts _ hplay
  refine ⟨?_, ?_, ?_⟩
  · intro g' hosts' todo' h
    rw [(rollbackStep_play h).2.2.2]
    exact (List.suffix_cons t todo).trans hsuffix
  · intro hasked hstarted
    cases hplay' : (rollbackStep S g hosts r t todo s).play with
    | none => simp [State.asked, hplay'] at hasked
    | upgrade ts => simp [State.asked, hplay'] at hasked
    | rollback g' hosts' todo' =>
      obtain ⟨hpasses, rfl, rfl, rfl⟩ := rollbackStep_play hplay'
      have hrefuses : s.Refuses S := by
        by_cases ht : t = .statusNewPostgreSQL
        · exact hclear ht hstarted
        · refine hs.refused ((asked_iff hplay).mpr ?_) hstarted
          rw [List.mem_cons, not_or]
          exact ⟨fun he => ht he.symm, (asked_iff hplay').mp hasked⟩
      exact refuses_rollbackStep hplay hsuffix hplay' hpasses hrefuses
  · have hold : (s.newStarted && hosts.any fun h =>
        decide ((r.outcome h).extent = .wholly) && t.startsOld g h (s.node h)) = false := by
      rw [Bool.and_eq_false_iff]
      by_cases ht : t = .startPatroniOnLeader ∨ t = .startPatroniOnReplica
      · -- a refused rollback does not come to the starts
        refine Or.inl (Bool.eq_false_iff.mpr fun hstarted => ?_)
        have hasked := (asked_iff hplay).mpr (asked_starts hsuffix ht)
        obtain ⟨h, -, hrefused⟩ := (refuses_iff hplay).mp (hs.refused hasked hstarted)
        exact not_refused_starts hsuffix ht hrefused
      · refine Or.inr (Bool.eq_false_iff.mpr fun hany => ?_)
        obtain ⟨h, -, hstarts⟩ := List.any_eq_true.mp hany
        rw [Bool.and_eq_true] at hstarts
        exact ht (startsOld_task hstarts.2)
    simp only [rollbackStep, hs.intact, hold, Bool.or_false]

/-- What the checks behind the question look at. -/
def Node.found (n : Node) :
    Bool × Bool × Option ℕ × Option ℕ × String × Option DataDir :=
  (n.pgCtlStatusNew, n.oldBindir, n.pgControl, n.pgControlOld, n.pgControlVersion, n.backup)

theorem found_setServer (n : Node) (d : DataDir) (running : Bool) :
    (n.setServer d running).found = n.found := by
  cases d <;> rfl

theorem found_startPatroni (n : Node) : n.startPatroni.found = n.found := by
  rw [Node.startPatroni]
  split <;> rfl

omit [DecidableEq Host] in
theorem refused_found (htodo : RollbackTask.statusNewPostgreSQL ∉ todo)
    (hn : n'.found = n.found) (hrefused : Refused S g h todo n) : Refused S g h todo n' := by
  simp only [Node.found, Prod.mk.injEq] at hn
  obtain ⟨hstatus, hbindir, hcontrol, hold, hversion, hbackup⟩ := hn
  simpa [Refused, controlFile, htodo, hstatus, hbindir, hcontrol, hold, hversion, hbackup]
    using hrefused

/-- What the servers and Patroni do does not undo a refusal behind the question. -/
theorem refuses_update {f : Node → Node} (hf : ∀ n, (f n).found = n.found)
    (hasked : s.asked = true) (hrefuses : s.Refuses S) : (s.update h f).Refuses S := by
  cases hplay : s.play with
  | none => simp [State.asked, hplay] at hasked
  | upgrade todo => simp [State.asked, hplay] at hasked
  | rollback g hosts todo =>
    rw [asked_iff hplay] at hasked
    obtain ⟨h', hmem, hrefused⟩ := (refuses_iff hplay).mp hrefuses
    refine (refuses_iff (s := s.update h f) hplay).mpr ⟨h', hmem, refused_found hasked ?_ hrefused⟩
    simp only [State.update]
    split
    · exact hf _
    · rfl

theorem inv_update (hs : Inv S s) {f : Node → Node} (hf : ∀ n, (f n).found = n.found) :
    Inv S (s.update h f) :=
  ⟨hs.suffix, fun hasked hstarted => refuses_update hf hasked (hs.refused hasked hstarted),
    hs.intact⟩

theorem inv_step (hs : Inv S s) {e : Event Host} (hclear : Clear S s e) :
    Inv S (step S H s e) := by
  cases e with
  | task r =>
    simp only [step]
    split
    · exact hs
    · exact inv_unasked hs.intact (by simp)
    · exact inv_unasked hs.intact (by simp)
    · next t todo hplay =>
      exact inv_unasked hs.intact fun g hosts todo' h => upgradePlay_rollback h
    · next g hosts t todo hplay =>
      refine inv_rollbackStep hs hplay ?_
      rintro rfl
      exact hclear (by simp [State.asks, hplay])
  | stop => exact inv_unasked hs.intact (by simp [step])
  | rollbackPlaybook g =>
    simp only [step]
    split
    · exact inv_unasked hs.intact fun g' hosts todo h => (rollbackWith_eq h).2.2
    · exact hs
  | serverStarts h d =>
    refine ⟨hs.suffix, ?_, hs.intact⟩
    intro hasked hstarted
    have hrefuses : s.Refuses S := by
      cases d with
      | old => exact hs.refused hasked (by simpa [step] using hstarted)
      | new =>
        by_cases hold : s.newStarted = true
        · exact hs.refused hasked hold
        · exact hclear (by simpa [step, hold] using hstarted) hasked
    have hkept : (s.update h (·.setServer d true)).Refuses S :=
      refuses_update (fun n => found_setServer n d true) hasked hrefuses
    exact hkept
  | serverStops h d => exact inv_update hs fun n => found_setServer n d false
  | patroniStarts h => exact inv_update hs found_startPatroni
  | patroniStops h => exact inv_update (f := fun n => { n with patroni := none }) hs fun _ => rfl

omit [DecidableEq Host] in
theorem Starts.inv (h : Starts S s) : Inv S s :=
  inv_unasked h.oldRestarted fun g hosts todo hp => by rw [h.play] at hp; cases hp

/-- In a run where every rollback that asks pg_ctl after a start on the new directory is refused,
no rollback starts Patroni on the old directory after such a start. -/
theorem never_restarts_old (h : Starts S s) {es : List (Event Host)}
    (hclear : Along (step S H) (Clear S) s es) :
    ∀ t ∈ visited (step S H) s es, t.oldRestarted = false := by
  intro t ht
  have hstep : ∀ (s : State Host) e, Inv S s → Clear S s e → Inv S (step S H s e) :=
    fun _ _ hs hc => inv_step hs hc
  exact (visited_of_along hstep h.inv hclear t ht).intact

end UpgradeRollback
