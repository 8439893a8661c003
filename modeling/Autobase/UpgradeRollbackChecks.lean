import Autobase.UpgradeRollback

/-! # What the checks of a rollback find

A rollback of the playbook that nothing interrupts, from any state. Every task works on its own
host, so the tasks before the first start are one chain a host. -/
namespace UpgradeRollbackChecks

open TransitionRuns UpgradeRollback

variable {Host : Type} [DecidableEq Host]

def smoothReport (members : Host → List String) : Report Host := ⟨fun _ => .done, members⟩

/-- The tasks on one host, as far as none of them fails. -/
def chain (S : Settings) (g : Groups Host) (members : List String) (h : Host) :
    List RollbackTask → Node → Option Node
  | [], n => some n
  | t :: ts, n => (t.perform S g members h n).bind (chain S g members h ts)

def checks : List RollbackTask :=
  [.abortIfPatroniRunning, .statusNewPostgreSQL, .abortIfNewRunning, .renamePgControl,
    .readPgControlVersion, .abortIfVersionMatches, .restorePatroniConfig, .ensureOldPaths]

/-- The checks of a rollback let a host pass. -/
@[mk_iff]
structure PassesOn (S : Settings) (g : Groups Host) (members : List String) (h : Host)
    (n : Node) : Prop where
  unhealthy : h ∈ g.primary → (members.filter fun m => m ≠ "stopped").length ≠ g.total
  unrefused : ¬ Refused S g h rollbackTasks n

instance (S : Settings) (g : Groups Host) (members : List String) (h : Host) (n : Node) :
    Decidable (PassesOn S g members h n) :=
  decidable_of_iff _ (passesOn_iff S g members h n).symm

def starts (t : RollbackTask) : Prop := t = .startPatroniOnLeader ∨ t = .startPatroniOnReplica

theorem startsOld_false {g : Groups Host} {h : Host} {t : RollbackTask} {n : Node}
    (ht : ¬ starts t) : t.startsOld g h n = false :=
  Bool.eq_false_iff.mpr fun h => ht (startsOld_task h)

variable {S : Settings} {H : Hosts Host} {s : State Host} {g : Groups Host} {hosts : List Host}
  {members : Host → List String}

theorem smooth_passes {t : RollbackTask} :
    rollbackPasses S g hosts (smoothReport members) t s ↔
      ∀ h ∈ hosts, (t.perform S g (members h) h (s.node h)).isSome := by
  simp [rollbackPasses, smoothReport]

theorem rollbackStep_history {r : Report Host} {t : RollbackTask} {todo : List RollbackTask}
    (ht : ¬ starts t) :
    (rollbackStep S g hosts r t todo s).newStarted = s.newStarted ∧
      (rollbackStep S g hosts r t todo s).oldRestarted = s.oldRestarted := by
  simp [rollbackStep, startsOld_false ht]

theorem rollbackStep_node {t : RollbackTask} {todo : List RollbackTask} {h : Host} (hh : h ∈ hosts)
    {n : Node} (hn : t.perform S g (members h) h (s.node h) = some n) :
    (rollbackStep S g hosts (smoothReport members) t todo s).node h = n := by
  simp [rollbackStep, smoothReport, Outcome.extent, hh, hn]

theorem run_ended (hplay : s.play = .none) (r : Report Host) (n : ℕ) :
    run (step S H) s (List.replicate n (.task r)) = s := by
  induction n with
  | zero => rfl
  | succ n ih =>
    rw [List.replicate_succ, run_cons]
    have hstep : step S H s (.task r) = s := by simp only [step, hplay]
    rw [hstep, ih]

/-- Tasks that start nothing leave the history alone; they end the play or bring every host to
the end of its chain. -/
theorem run_chain (ts : List RollbackTask) (hts : ∀ t ∈ ts, ¬ starts t) {rest : List RollbackTask}
    (hrest : rest ≠ []) (hplay : s.play = .rollback g hosts (ts ++ rest)) {s' : State Host}
    (hs' : s' = run (step S H) s (List.replicate ts.length (.task (smoothReport members)))) :
    s'.newStarted = s.newStarted ∧ s'.oldRestarted = s.oldRestarted ∧
      ((s'.play = .rollback g hosts rest ∧
          ∀ h ∈ hosts, chain S g (members h) h ts (s.node h) = some (s'.node h)) ∨
        (s'.play = .none ∧ ¬ ∀ h ∈ hosts, (chain S g (members h) h ts (s.node h)).isSome)) := by
  induction ts generalizing s with
  | nil =>
    subst hs'
    exact ⟨rfl, rfl, Or.inl ⟨hplay, fun _ _ => rfl⟩⟩
  | cons t ts ih =>
    have ht : ¬ starts t := hts t List.mem_cons_self
    obtain ⟨hstarted, hrestarted⟩ : (rollbackStep S g hosts (smoothReport members) t
        (ts ++ rest) s).newStarted = s.newStarted ∧ (rollbackStep S g hosts (smoothReport members) t
          (ts ++ rest) s).oldRestarted = s.oldRestarted := rollbackStep_history ht
    rw [List.length_cons, List.replicate_succ, run_cons] at hs'
    have hstep : step S H s (.task (smoothReport members)) =
        rollbackStep S g hosts (smoothReport members) t (ts ++ rest) s := by
      simp only [step, hplay, List.cons_append]
    rw [hstep] at hs'
    by_cases hp : rollbackPasses S g hosts (smoothReport members) t s
    · have hnext : (rollbackStep S g hosts (smoothReport members) t (ts ++ rest) s).play =
          .rollback g hosts (ts ++ rest) := by
        obtain ⟨u, us, he⟩ := List.exists_cons_of_ne_nil
          (List.append_ne_nil_of_right_ne_nil ts hrest)
        simp only [rollbackStep, if_pos hp, he, Play.rollbackWith]
      have hchain : ∀ h ∈ hosts, chain S g (members h) h (t :: ts) (s.node h) =
          chain S g (members h) h ts
            ((rollbackStep S g hosts (smoothReport members) t (ts ++ rest) s).node h) := by
        intro h hh
        obtain ⟨n, hn⟩ := Option.isSome_iff_exists.mp (smooth_passes.mp hp h hh)
        rw [rollbackStep_node hh hn, chain, hn, Option.bind_some]
      obtain ⟨h₁, h₂, h₃⟩ := ih (fun u hu => hts u (List.mem_cons_of_mem _ hu)) hnext hs'
      refine ⟨h₁.trans hstarted, h₂.trans hrestarted, ?_⟩
      rcases h₃ with ⟨hend, hnodes⟩ | ⟨hend, hfails⟩
      · exact Or.inl ⟨hend, fun h hh => (hchain h hh).trans (hnodes h hh)⟩
      · refine Or.inr ⟨hend, fun hall => hfails fun h hh => ?_⟩
        rw [← hchain h hh]
        exact hall h hh
    · have hended : (rollbackStep S g hosts (smoothReport members) t (ts ++ rest) s).play =
          .none := by
        simp only [rollbackStep, if_neg hp]
      rw [run_ended hended] at hs'
      subst hs'
      refine ⟨hstarted, hrestarted, Or.inr ⟨hended, fun hall => hp ?_⟩⟩
      rw [smooth_passes]
      intro h hh
      have hsome := hall h hh
      rw [chain] at hsome
      exact Option.isSome_of_isSome_bind hsome

section Checks

variable {ms : List String} {h : Host} {n m : Node}

omit [DecidableEq Host] in
theorem not_refused_iff :
    ¬ Refused S g h rollbackTasks n ↔ n.newServer = false ∧
      (h ∈ g.primary → n.oldBindir = true ∧ ∃ v, n.pgControlOld.or n.pgControl = some v ∧
        controlPrefix v ≠ withoutDots S.pgNewVersion) ∧ n.backup.isSome := by
  cases hcontrol : n.pgControlOld.or n.pgControl <;>
    simp [Refused, rollbackTasks, controlFile, hcontrol, Option.isSome_iff_ne_none]

theorem perform_statusNewPostgreSQL :
    RollbackTask.statusNewPostgreSQL.perform S g ms h n =
      some { n with pgCtlStatusNew := n.newServer } := rfl

theorem perform_restorePatroniConfig :
    RollbackTask.restorePatroniConfig.perform S g ms h n =
      n.backup.map fun d => { n with dataDir := d } := rfl

theorem perform_ensureOldPaths :
    RollbackTask.ensureOldPaths.perform S g ms h n = some { n with dataDir := .old } := rfl

/-- The checks and the restored paths come to their end exactly when the host passes. -/
theorem chain_checks_isSome :
    (chain S g ms h checks n).isSome ↔ PassesOn S g ms h n := by
  rw [passesOn_iff, not_refused_iff]
  simp only [chain, checks, Option.isSome_iff_exists, Option.bind_eq_some_iff,
    perform_abortIfPatroniRunning, perform_abortIfNewRunning, perform_renamePgControl,
    perform_statusNewPostgreSQL, perform_restorePatroniConfig, perform_ensureOldPaths]
  by_cases hp : h ∈ g.primary
  · simp [perform_readPgControlVersion hp, perform_abortIfVersionMatches hp, hp]
    intro _ _
    constructor
    · rintro ⟨v, ⟨hv, hbin⟩, hne, hbackup⟩
      exact ⟨⟨hbin, v, hv, hne⟩, hbackup⟩
    · rintro ⟨⟨hbin, v, hv, hne⟩, hbackup⟩
      exact ⟨v, ⟨hv, hbin⟩, hne, hbackup⟩
  · simp [(perform_secondary hp).1, (perform_secondary hp).2, hp]

theorem perform_patroni {t : RollbackTask} (ht : ¬ starts t)
    (hm : t.perform S g ms h n = some m) : m.patroni = n.patroni := by
  cases t with
  | abortIfPatroniRunning =>
    obtain ⟨-, rfl⟩ := perform_abortIfPatroniRunning.mp hm
    rfl
  | statusNewPostgreSQL =>
    obtain rfl := Option.some.inj hm
    rfl
  | abortIfNewRunning =>
    obtain ⟨-, rfl⟩ := perform_abortIfNewRunning.mp hm
    rfl
  | renamePgControl =>
    rw [perform_renamePgControl] at hm
    obtain rfl := Option.some.inj hm
    rfl
  | readPgControlVersion =>
    by_cases hp : h ∈ g.primary
    · obtain ⟨v, -, -, rfl⟩ := (perform_readPgControlVersion hp).mp hm
      rfl
    · rw [(perform_secondary hp).1] at hm
      rw [Option.some.inj hm]
  | abortIfVersionMatches =>
    by_cases hp : h ∈ g.primary
    · obtain ⟨-, rfl⟩ := (perform_abortIfVersionMatches hp).mp hm
      rfl
    · rw [(perform_secondary hp).2] at hm
      rw [Option.some.inj hm]
  | restorePatroniConfig =>
    obtain ⟨d, -, rfl⟩ := Option.map_eq_some_iff.mp hm
    rfl
  | ensureOldPaths =>
    obtain rfl := Option.some.inj hm
    rfl
  | startPatroniOnLeader => exact absurd (Or.inl rfl) ht
  | startPatroniOnReplica => exact absurd (Or.inr rfl) ht

theorem chain_patroni {ts : List RollbackTask} (hts : ∀ t ∈ ts, ¬ starts t)
    (hm : chain S g ms h ts n = some m) : m.patroni = n.patroni := by
  induction ts generalizing n with
  | nil => exact congrArg Node.patroni (Option.some.inj hm).symm
  | cons t ts ih =>
    obtain ⟨u, hu, hm⟩ := Option.bind_eq_some_iff.mp hm
    rw [ih (fun t ht => hts t (List.mem_cons_of_mem _ ht)) hm]
    exact perform_patroni (hts t List.mem_cons_self) hu

theorem chain_append {ts us : List RollbackTask} :
    chain S g ms h (ts ++ us) n = (chain S g ms h ts n).bind (chain S g ms h us) := by
  induction ts generalizing n with
  | nil => rfl
  | cons t ts ih =>
    simp only [List.cons_append, chain, Option.bind_assoc]
    exact Option.bind_congr fun _ _ => ih

theorem checks_start_nothing : ∀ t ∈ checks, ¬ starts t := by
  unfold starts
  decide

theorem chain_checks_dataDir (hm : chain S g ms h checks n = some m) : m.dataDir = .old := by
  rw [show checks = checks.dropLast ++ [.ensureOldPaths] from rfl, chain_append] at hm
  obtain ⟨u, -, hm⟩ := Option.bind_eq_some_iff.mp hm
  obtain rfl := Option.some.inj hm
  rfl

end Checks

theorem smooth_restarted {t : RollbackTask} {todo : List RollbackTask} :
    (rollbackStep S g hosts (smoothReport members) t todo s).oldRestarted = true ↔
      s.oldRestarted = true ∨
        s.newStarted = true ∧ ∃ h ∈ hosts, t.startsOld g h (s.node h) = true := by
  simp [rollbackStep, smoothReport, Outcome.extent]

theorem startsOld_leader {h : Host} {n : Node} :
    RollbackTask.startPatroniOnLeader.startsOld g h n = true ↔
      h ∈ g.primary ∧ n.patroni = none ∧ n.dataDir = .old := by
  simp [RollbackTask.startsOld, and_assoc]

theorem startsOld_replica {h : Host} {n : Node} :
    RollbackTask.startPatroniOnReplica.startsOld g h n = true ↔
      h ∈ g.secondary ∧ n.patroni = none ∧ n.dataDir = .old := by
  simp [RollbackTask.startsOld, and_assoc]

/-- The last two tasks start Patroni on every host where it does not run. -/
theorem run_starts (hplay : s.play = .rollback g g.hosts [.startPatroniOnLeader,
      .startPatroniOnReplica]) (hdir : ∀ h ∈ g.hosts, (s.node h).dataDir = .old)
    (hrestarted : s.oldRestarted = false) :
    (run (step S H) s (List.replicate 2 (.task (smoothReport members)))).oldRestarted = true ↔
      s.newStarted = true ∧ ∃ h ∈ g.hosts, (s.node h).patroni = none := by
  have hpass : rollbackPasses S g g.hosts (smoothReport members) .startPatroniOnLeader s :=
    smooth_passes.mpr fun _ _ => rfl
  have hnode : ∀ h ∈ g.hosts, (rollbackStep S g g.hosts (smoothReport members)
      .startPatroniOnLeader [.startPatroniOnReplica] s).node h =
        if h ∈ g.primary then (s.node h).startPatroni else s.node h :=
    fun h hh => rollbackStep_node hh rfl
  have hstarted : (rollbackStep S g g.hosts (smoothReport members) .startPatroniOnLeader
      [.startPatroniOnReplica] s).newStarted = s.newStarted := rfl
  have hfirst : step S H s (.task (smoothReport members)) = rollbackStep S g g.hosts
      (smoothReport members) .startPatroniOnLeader [.startPatroniOnReplica] s := by
    simp only [step, hplay]
  have hnext : (rollbackStep S g g.hosts (smoothReport members) .startPatroniOnLeader
      [.startPatroniOnReplica] s).play = .rollback g g.hosts [.startPatroniOnReplica] := by
    simp only [rollbackStep, if_pos hpass, Play.rollbackWith]
  rw [show List.replicate 2 (Event.task (smoothReport members)) =
      [.task (smoothReport members), .task (smoothReport members)] from rfl, run_cons, hfirst,
    run_cons, run_nil]
  simp only [step, hnext, smooth_restarted, startsOld_leader, startsOld_replica, hstarted,
    hrestarted, Bool.false_eq_true, false_or]
  constructor
  · rintro (⟨hn, h, hh, -, hp, -⟩ | ⟨hn, h, hh, -, hp, -⟩)
    · exact ⟨hn, h, hh, hp⟩
    · refine ⟨hn, h, hh, ?_⟩
      rw [hnode h hh] at hp
      split at hp
      · -- a leader runs Patroni after the first task
        simp only [Node.startPatroni] at hp
        split at hp
        · exact hp
        · cases hp
      · exact hp
  · rintro ⟨hn, h, hh, hp⟩
    by_cases hleader : h ∈ g.primary
    · exact Or.inl ⟨hn, h, hh, hleader, hp, hdir h hh⟩
    · have hreplica : h ∈ g.secondary := (List.mem_append.mp hh).resolve_left hleader
      refine Or.inr ⟨hn, h, hh, hreplica, ?_⟩
      rw [hnode h hh, if_neg hleader]
      exact ⟨hp, hdir h hh⟩

/-- A rollback of the playbook that is not interrupted starts Patroni on the old directory, after
a server was started on the new one, exactly when its checks pass and Patroni is stopped on some
host. -/
theorem uninterrupted_rollback_iff (hplay : s.play = .none) (hrestarted : s.oldRestarted = false) :
    (run (step S H) s (.rollbackPlaybook g ::
        List.replicate rollbackTasks.length (.task (smoothReport members)))).oldRestarted = true ↔
      s.newStarted = true ∧ (∀ h ∈ g.hosts, PassesOn S g (members h) h (s.node h)) ∧
        ∃ h ∈ g.hosts, (s.node h).patroni = none := by
  have hstep : step S H s (.rollbackPlaybook g) =
      { s with play := .rollback g g.hosts (checks ++ [.startPatroniOnLeader,
        .startPatroniOnReplica]) } := by
    simp only [step, hplay]
    rfl
  rw [run_cons, hstep, show rollbackTasks.length = checks.length + 2 from rfl,
    ← List.replicate_append_replicate, run_append]
  generalize hs' : run (step S H) { s with play := .rollback g g.hosts (checks ++
    [.startPatroniOnLeader, .startPatroniOnReplica]) }
    (List.replicate checks.length (.task (smoothReport members))) = s'
  obtain ⟨hstarted, hflag, hend⟩ := run_chain checks checks_start_nothing (by simp) rfl hs'.symm
  rcases hend with ⟨hrest, hnodes⟩ | ⟨hended, hfails⟩
  · have hpass : ∀ h ∈ g.hosts, PassesOn S g (members h) h (s.node h) := by
      intro h hh
      rw [← chain_checks_isSome, hnodes h hh]
      rfl
    rw [run_starts hrest (fun h hh => chain_checks_dataDir (hnodes h hh)) (hflag.trans hrestarted),
      hstarted]
    have hpatroni : ∀ h ∈ g.hosts, (s'.node h).patroni = (s.node h).patroni :=
      fun h hh => chain_patroni checks_start_nothing (hnodes h hh)
    constructor
    · rintro ⟨hn, h, hh, hp⟩
      exact ⟨hn, hpass, h, hh, (hpatroni h hh) ▸ hp⟩
    · rintro ⟨hn, -, h, hh, hp⟩
      exact ⟨hn, h, hh, (hpatroni h hh).trans hp⟩
  · rw [run_ended hended, hflag]
    simp only [hrestarted, Bool.false_eq_true, false_iff]
    rintro ⟨-, hpass, -⟩
    exact hfails fun h hh => chain_checks_isSome.mpr (hpass h hh)

/-- In a run where every rollback that asks pg_ctl after a start on the new directory is refused,
no rollback starts Patroni on the old directory after such a start. After any run, a rollback that
nothing interrupts does so exactly when no check refuses it and Patroni is stopped on some host. -/
theorem rollback_never_restarts_old (h : Starts S s) (es : List (Event Host)) (g : Groups Host)
    (members : Host → List String) :
    (Along (step S H) (Clear S) s es →
      ∀ t ∈ visited (step S H) s es, t.oldRestarted = false) ∧
    ((run (step S H) s es).play = .none → (run (step S H) s es).oldRestarted = false →
      ((run (step S H) s (es ++ .rollbackPlaybook g :: List.replicate rollbackTasks.length
          (.task (smoothReport members)))).oldRestarted = true ↔
        (run (step S H) s es).newStarted = true ∧
          (∀ h ∈ g.hosts, PassesOn S g (members h) h ((run (step S H) s es).node h)) ∧
          ∃ h ∈ g.hosts, ((run (step S H) s es).node h).patroni = none)) := by
  refine ⟨fun hclear => never_restarts_old h hclear, fun hplay hrestarted => ?_⟩
  rw [run_append]
  exact uninterrupted_rollback_iff hplay hrestarted

/-! ## From 14 to 15 -/

/-- The control file of versions 13 to 16 has the number 1300. -/
def runningOld : Node where
  dataDir := .old
  backup := none
  patroni := some .old
  oldServer := true
  newServer := false
  pgControl := some 1300
  pgControlOld := none
  oldBindir := true
  pgCtlStatusNew := false
  pgControlVersion := ""

def toFifteen : Settings := ⟨"15", false, false⟩

def twoHosts : Hosts ℕ := ⟨1, [2]⟩

def beforeUpgrade : State ℕ :=
  ⟨fun _ => runningOld, .upgrade (upgradeTasks toFifteen), false, false, false⟩

def allDone : Event ℕ := .task ⟨fun _ => .done, fun _ => []⟩

/-- Both servers are started on the new directory and the old one is deleted. The operator rolls
back while they run, and once more when they are down. -/
def twiceRefused : List (Event ℕ) :=
  List.replicate 12 allDone ++ [.serverStarts 1 .new, allDone, .serverStarts 2 .new, allDone,
    .stop, .rollbackPlaybook twoHosts.groups, allDone, allDone, allDone, .patroniStops 1,
    .patroniStops 2, .serverStops 1 .new, .serverStops 2 .new,
    .rollbackPlaybook twoHosts.groups] ++ List.replicate 5 allDone

/-- The new leader is started, found unhealthy and stopped. -/
def stoppedLeader : List (Event ℕ) :=
  List.replicate 12 allDone ++ [.serverStarts 1 .new, .stop, .patroniStops 1, .serverStops 1 .new]

def rollBack : List (Event ℕ) :=
  .rollbackPlaybook twoHosts.groups ::
    List.replicate rollbackTasks.length (.task (smoothReport fun _ => []))

/-- pg_ctl refuses the first rollback and pg_controldata the second. A stopped leader is not
refused. -/
theorem twice_refused_safe :
    (∃ t ∈ visited (step toFifteen twoHosts) beforeUpgrade twiceRefused,
      t.newStarted = true ∧ t.asked = true) ∧
    (∀ t ∈ visited (step toFifteen twoHosts) beforeUpgrade twiceRefused,
      t.oldRestarted = false) ∧
    (run (step toFifteen twoHosts) beforeUpgrade (stoppedLeader ++ rollBack)).oldRestarted =
      true := by
  have hstarts : Starts toFifteen beforeUpgrade := ⟨rfl, rfl, rfl, rfl⟩
  have hclear : Along (step toFifteen twoHosts) (Clear toFifteen) beforeUpgrade twiceRefused := by
    decide +kernel
  refine ⟨by decide +kernel, ?_, ?_⟩
  · exact (rollback_never_restarts_old hstarts twiceRefused twoHosts.groups fun _ => []).1 hclear
  · refine ((rollback_never_restarts_old hstarts stoppedLeader twoHosts.groups fun _ => []).2
      rfl (by decide +kernel)).mpr ⟨?_, ?_, ?_⟩
    all_goals decide +kernel

theorem stopped_leader_restarts_old :
    ¬ ∀ t ∈ visited (step toFifteen twoHosts) beforeUpgrade (stoppedLeader ++ rollBack),
      t.oldRestarted = false := by
  decide +kernel

end UpgradeRollbackChecks
