import Autobase.TransitionRuns

/-! # The custom WAL directory

The role moves the WAL of a host behind a symbolic link. Every task may fail, the role may be run
again at any time, and PostgreSQL writes as long as it runs. -/
namespace PatroniCustomWalDir

open TransitionRuns

/-- The files of a directory by their names. -/
abbrev Files (ν δ : Type*) := ν → Option δ

/-- What stands at a path; a link leads to `postgresql_wal_dir`. -/
inductive Entry (ν δ : Type*)
  | absent
  | dir (files : Files ν δ)
  | link

inductive WalTask
  | emptyTarget
  | makeTarget
  | installRsync
  | checkpoint
  | stopReplica
  | stopLeader
  | checkStopped
  | synchronize
  | rename
  | link
  | startLeader
  | waitLeader
  | checkLeader
  | startReplica
  | waitReplica
  | checkReplica
  | removeOld
  deriving DecidableEq, Repr

def WalTask.next : WalTask → Option WalTask
  | .emptyTarget => some .makeTarget
  | .makeTarget => some .installRsync
  | .installRsync => some .checkpoint
  | .checkpoint => some .stopReplica
  | .stopReplica => some .stopLeader
  | .stopLeader => some .checkStopped
  | .checkStopped => some .synchronize
  | .synchronize => some .rename
  | .rename => some .link
  | .link => some .startLeader
  | .startLeader => some .waitLeader
  | .waitLeader => some .checkLeader
  | .checkLeader => some .startReplica
  | .startReplica => some .waitReplica
  | .waitReplica => some .checkReplica
  | .checkReplica => some .removeOld
  | .removeOld => none

/-- Whether the host is `groups['master'][0]`, and whether it is in the group `replica`. -/
structure Role where
  isLeader : Bool
  isReplica : Bool

/-- `wal` stands in the data directory under its name and `old` under the name with `_old`, where
a directory may have been moved into it. `written` is the WAL as PostgreSQL has left it. -/
structure Host (ν δ : Type*) where
  wal : Entry ν δ
  old : Option (Entry ν δ × Option (Entry ν δ))
  target : Option (Files ν δ)
  patroni : Bool
  postgres : Bool
  todo : Option WalTask
  written : Files ν δ

/-- How a task ends: a task that fails may have made its change, and may leave part of a
directory. -/
structure Outcome (ν δ : Type*) where
  ok : Bool
  took : Bool
  left : Option (Files ν δ)

variable {ν δ : Type*}

def Outcome.made (o : Outcome ν δ) : Bool := o.ok || o.took

def empty : Files ν δ := fun _ => none

/-- `synchronize` does not delete. -/
def merge (src dest : Files ν δ) : Files ν δ := fun n => (src n).orElse fun _ => dest n

namespace Host

/-- The WAL behind the name in the data directory. -/
def contents (s : Host ν δ) : Option (Files ν δ) :=
  match s.wal with
  | .absent => none
  | .dir files => some files
  | .link => s.target

def moved (s : Host ν δ) : Option (Entry ν δ × Option (Entry ν δ)) :=
  match s.wal, s.old with
  | .absent, _ => none
  | e, none => some (e, none)
  | e, some (o, none) => some (o, some e)
  | _, some (_, some _) => none

end Host

/-- One task of the block, and whether the next one follows. -/
def perform (R : Role) (t : WalTask) (s : Host ν δ) (o : Outcome ν δ) : Host ν δ × Bool :=
  match t with
  | .emptyTarget => ({ s with target := if o.ok then none else o.left }, o.ok)
  | .makeTarget =>
    (if o.made then { s with target := some (s.target.getD empty) } else s, o.ok)
  | .installRsync => (s, o.ok)
  | .checkpoint => (s, o.ok)
  | .stopReplica =>
    if R.isReplica then (if o.made then { s with patroni := false } else s, o.ok) else (s, true)
  | .stopLeader =>
    if R.isLeader then (if o.made then { s with patroni := false } else s, o.ok) else (s, true)
  | .checkStopped => (s, o.ok && !s.postgres)
  | .synchronize =>
    match s.contents with
    | none => (s, false)
    | some src =>
      ({ s with target := if o.ok then some (merge src (s.target.getD empty)) else o.left }, o.ok)
  | .rename =>
    match s.moved with
    | none => (s, false)
    | some old => (if o.made then { s with wal := .absent, old := some old } else s, o.ok)
  | .link =>
    match s.wal with
    | .absent => (if o.made then { s with wal := .link } else s, o.ok)
    | .dir _ => (s, false)
    | .link => (s, o.ok)
  | .startLeader =>
    if R.isLeader then (if o.made then { s with patroni := true } else s, o.ok) else (s, true)
  | .waitLeader => (s, !R.isLeader || o.ok)
  | .checkLeader => (s, !R.isLeader || o.ok)
  | .startReplica =>
    if R.isReplica then (if o.made then { s with patroni := true } else s, o.ok) else (s, true)
  | .waitReplica => (s, !R.isReplica || o.ok)
  | .checkReplica => (s, !R.isReplica || o.ok)
  | .removeOld => (if o.made then { s with old := none } else s, o.ok)

/-- `attempt` begins the role, `task` does its next task, and `operator` starts or stops Patroni
while the role is not at work. -/
inductive Act (ν δ : Type*)
  | attempt
  | task (o : Outcome ν δ)
  | write (files : Files ν δ)
  | postgresStarts
  | postgresStops
  | operator (patroni : Bool)

/-- The block is entered only if the directory is there and is not a link. -/
def act (R : Role) (s : Host ν δ) : Act ν δ → Host ν δ
  | .attempt =>
    match s.todo, s.wal with
    | none, .dir _ => { s with todo := some .emptyTarget }
    | _, _ => s
  | .task o =>
    match s.todo with
    | none => s
    | some t =>
      let result := perform R t s o
      { result.1 with todo := if result.2 then t.next else none }
  | .write files =>
    match s.postgres, s.wal, s.target with
    | true, .dir _, _ => { s with wal := .dir files, written := files }
    | true, .link, some _ => { s with target := some files, written := files }
    | _, _, _ => s
  | .postgresStarts =>
    if s.patroni = true ∧ s.contents.isSome = true then { s with postgres := true } else s
  | .postgresStops => { s with postgres := false }
  | .operator patroni => if s.todo.isNone then { s with patroni := patroni } else s

variable {R : Role} {s : Host ν δ} {o : Outcome ν δ} {t : WalTask}

structure Stopped (s : Host ν δ) : Prop where
  patroni : s.patroni = false
  postgres : s.postgres = false

/-- All that PostgreSQL has written is in one piece: in its place, behind the link, or behind
where the link should be. -/
inductive Kept (s : Host ν δ) : Prop
  | inPlace (wal : s.wal = .dir s.written)
  | linked (wal : s.wal = .link) (target : s.target = some s.written)
  | halfway (wal : s.wal = .absent) (target : s.target = some s.written)
      (postgres : s.postgres = false)

/-- What holds before each task. -/
def Ready (R : Role) (s : Host ν δ) : WalTask → Prop
  | .emptyTarget => s.wal = .dir s.written
  | .makeTarget => s.wal = .dir s.written ∧ s.target = none
  | .installRsync | .checkpoint | .stopReplica =>
    s.wal = .dir s.written ∧ s.target = some empty
  | .stopLeader =>
    s.wal = .dir s.written ∧ s.target = some empty ∧ (R.isReplica = true → s.patroni = false)
  | .checkStopped => s.wal = .dir s.written ∧ s.target = some empty ∧ s.patroni = false
  | .synchronize => s.wal = .dir s.written ∧ s.target = some empty ∧ Stopped s
  | .rename => s.wal = .dir s.written ∧ s.target = some s.written ∧ Stopped s
  | .link => s.wal = .absent ∧ s.target = some s.written ∧ Stopped s
  | _ => s.wal = .link ∧ s.target = some s.written

def Invariant (R : Role) (s : Host ν δ) : Prop :=
  match s.todo with
  | none => Kept s
  | some t => Ready R s t

theorem merge_empty (src : Files ν δ) : merge src empty = src := by
  funext n
  rw [merge]
  cases src n <;> rfl

theorem kept_of_ready (h : Ready R s t) : Kept s := by
  cases t
  case emptyTarget => exact .inPlace h
  case link => exact .halfway h.1 h.2.1 h.2.2.postgres
  case makeTarget | installRsync | checkpoint | stopReplica | stopLeader | checkStopped |
      synchronize | rename => exact .inPlace h.1
  all_goals exact .linked h.1 h.2

theorem contents_inPlace (h : s.wal = .dir s.written) : s.contents = some s.written := by
  rw [Host.contents, h]

/-- A task that fails leaves everything in one piece. -/
theorem kept_of_failure (h : Ready R s t) (hfail : (perform R t s o).2 = false) :
    Kept (perform R t s o).1 := by
  cases t
  case emptyTarget => exact .inPlace h
  case synchronize =>
    rw [perform, contents_inPlace h.1]
    exact .inPlace h.1
  case rename =>
    rw [perform]
    split
    · exact .inPlace h.1
    · dsimp only
      split
      · exact .halfway rfl h.2.1 h.2.2.postgres
      · exact .inPlace h.1
  case link =>
    rw [perform, h.1]
    dsimp only
    split
    · exact .linked rfl h.2.1
    · exact .halfway h.1 h.2.1 h.2.2.postgres
  case makeTarget | stopReplica | stopLeader =>
    dsimp only [perform]
    (repeat' split) <;> exact .inPlace h.1
  case installRsync | checkpoint | checkStopped => exact .inPlace h.1
  all_goals
    dsimp only [perform]
    (repeat' split) <;> exact .linked h.1 h.2

theorem made_of_ok (ho : o.ok = true) : o.made = true := by
  rw [Outcome.made, ho, Bool.true_or]

/-- A task that succeeds makes the host ready for the next one. -/
theorem ready_next {u : WalTask} (hrole : R.isLeader = true ∨ R.isReplica = true)
    (h : Ready R s t) (hok : (perform R t s o).2 = true) (hnext : t.next = some u) :
    Ready R (perform R t s o).1 u := by
  cases t <;> cases hnext
  case emptyTarget =>
    have hok : o.ok = true := hok
    exact ⟨h, by rw [perform, if_pos hok]⟩
  case makeTarget =>
    have hok : o.ok = true := hok
    rw [perform, if_pos (made_of_ok hok)]
    exact ⟨h.1, by rw [h.2]; rfl⟩
  case installRsync => exact h
  case checkpoint => exact h
  case stopReplica =>
    rw [perform]
    split
    · rename_i hreplica
      rw [perform, if_pos hreplica] at hok
      rw [if_pos (made_of_ok hok)]
      exact ⟨h.1, h.2, fun _ => rfl⟩
    · rename_i hreplica
      exact ⟨h.1, h.2, fun hr => absurd hr hreplica⟩
  case stopLeader =>
    rw [perform]
    split
    · rename_i hleader
      rw [perform, if_pos hleader] at hok
      rw [if_pos (made_of_ok hok)]
      exact ⟨h.1, h.2.1, rfl⟩
    · rename_i hleader
      exact ⟨h.1, h.2.1, h.2.2 (hrole.resolve_left hleader)⟩
  case checkStopped =>
    obtain ⟨-, hstopped⟩ := Bool.and_eq_true_iff.mp hok
    have hpostgres : s.postgres = false := by simpa using hstopped
    exact ⟨h.1, h.2.1, h.2.2, hpostgres⟩
  case synchronize =>
    rw [perform, contents_inPlace h.1] at hok ⊢
    have hok : o.ok = true := hok
    refine ⟨h.1, ?_, h.2.2.patroni, h.2.2.postgres⟩
    change (if o.ok = true then some (merge s.written (s.target.getD empty)) else o.left) = _
    rw [if_pos hok, h.2.1, Option.getD_some, merge_empty]
  case rename =>
    rw [perform] at hok ⊢
    split at hok
    · cases hok
    · rw [if_pos (made_of_ok hok)]
      exact ⟨rfl, h.2.1, h.2.2.patroni, h.2.2.postgres⟩
  case link =>
    rw [perform, h.1] at hok ⊢
    have hok : o.ok = true := hok
    rw [if_pos (made_of_ok hok)]
    exact ⟨rfl, h.2.1⟩
  all_goals
    dsimp only [perform]
    (repeat' split) <;> exact h

theorem kept_congr {s' : Host ν δ} (h : Kept s) (hwal : s'.wal = s.wal)
    (htarget : s'.target = s.target) (hwritten : s'.written = s.written)
    (hpostgres : s.postgres = false → s'.postgres = false) : Kept s' := by
  cases h with
  | inPlace hw => exact .inPlace (by rw [hwal, hwritten, hw])
  | linked hw ht => exact .linked (by rw [hwal, hw]) (by rw [htarget, hwritten, ht])
  | halfway hw ht hp =>
    exact .halfway (by rw [hwal, hw]) (by rw [htarget, hwritten, ht]) (hpostgres hp)

/-- Before the WAL is copied PostgreSQL writes in place, and behind the link afterwards. In between
it does not run. -/
theorem ready_cases (h : Ready R s t) : s.wal = .dir s.written ∧ (s.postgres = false ∨
      ∀ s' : Host ν δ, s'.wal = .dir s'.written → s'.target = s.target → s'.patroni = s.patroni →
        Ready R s' t) ∨
    s.wal = .link ∧ s.target = some s.written ∧
      (∀ s' : Host ν δ, s'.wal = .link → s'.target = some s'.written → Ready R s' t) ∨
    s.wal = .absent ∧ s.postgres = false := by
  cases t
  case emptyTarget => exact Or.inl ⟨h, Or.inr fun s' hw _ _ => hw⟩
  case makeTarget | installRsync | checkpoint | stopReplica =>
    exact Or.inl ⟨h.1, Or.inr fun s' hw ht _ => ⟨hw, ht.trans h.2⟩⟩
  case stopLeader =>
    exact Or.inl ⟨h.1, Or.inr fun s' hw ht hp =>
      ⟨hw, ht.trans h.2.1, fun hr => hp.trans (h.2.2 hr)⟩⟩
  case checkStopped =>
    exact Or.inl ⟨h.1, Or.inr fun s' hw ht hp => ⟨hw, ht.trans h.2.1, hp.trans h.2.2⟩⟩
  case synchronize | rename => exact Or.inl ⟨h.1, Or.inl h.2.2.postgres⟩
  case link => exact Or.inr (Or.inr ⟨h.1, h.2.2.postgres⟩)
  all_goals exact Or.inr (Or.inl ⟨h.1, h.2, fun s' hw ht => ⟨hw, ht⟩⟩)

theorem invariant_of_kept (h : Kept s) (htodo : s.todo = none) : Invariant R s := by
  rw [Invariant, htodo]
  exact h

theorem invariant_of_ready (h : Ready R s t) (htodo : s.todo = some t) : Invariant R s := by
  rw [Invariant, htodo]
  exact h

theorem ready_underway (h : Ready R s t) (todo : Option WalTask) :
    Ready R { s with todo := todo } t := by
  cases t
  case synchronize | rename | link => exact ⟨h.1, h.2.1, h.2.2.patroni, h.2.2.postgres⟩
  all_goals exact h

theorem ready_write (files : Files ν δ) (h : Ready R s t) (htodo : s.todo = some t) :
    Invariant R (act R s (.write files)) := by
  rw [act]
  split
  · rename_i _ hpostgres hwal
    rcases ready_cases h with ⟨-, hstopped | hready⟩ | ⟨hlink, -⟩ | ⟨habsent, -⟩
    · exact absurd (hstopped.symm.trans hpostgres) (by simp)
    · exact invariant_of_ready (hready _ rfl rfl rfl) htodo
    · exact absurd (hlink.symm.trans hwal) (by simp)
    · exact absurd (habsent.symm.trans hwal) (by simp)
  · rename_i hpostgres hwal _
    rcases ready_cases h with ⟨hdir, -⟩ | ⟨-, -, hready⟩ | ⟨habsent, -⟩
    · exact absurd (hdir.symm.trans hwal) (by simp)
    · exact invariant_of_ready (hready _ hwal rfl) htodo
    · exact absurd (habsent.symm.trans hwal) (by simp)
  · exact invariant_of_ready h htodo

/-- PostgreSQL is started by Patroni only. -/
theorem ready_starts (h : Ready R s t) (hpatroni : s.patroni = true) :
    Ready R { s with postgres := true } t := by
  have hrunning : ¬ Stopped s := fun hstopped =>
    absurd (hstopped.patroni.symm.trans hpatroni) (by simp)
  cases t
  case synchronize | rename | link => exact absurd h.2.2 hrunning
  all_goals exact h

theorem ready_stops (h : Ready R s t) : Ready R { s with postgres := false } t := by
  cases t
  case synchronize | rename | link => exact ⟨h.1, h.2.1, h.2.2.patroni, rfl⟩
  all_goals exact h

/-- The role at work. -/
theorem invariant_underway (hrole : R.isLeader = true ∨ R.isReplica = true) (h : Ready R s t)
    (htodo : s.todo = some t) (a : Act ν δ) : Invariant R (act R s a) := by
  cases a with
  | attempt =>
    rw [act, htodo]
    exact invariant_of_ready h htodo
  | task o =>
    rw [act, htodo]
    dsimp only
    cases hok : (perform R t s o).2 with
    | false =>
      refine invariant_of_kept ?_ rfl
      exact kept_congr (kept_of_failure h hok) rfl rfl rfl id
    | true =>
      cases hnext : t.next with
      | none =>
        refine invariant_of_kept ?_ rfl
        cases t <;> cases hnext
        dsimp only [perform]
        split <;> exact .linked h.1 h.2
      | some u =>
        exact invariant_of_ready (ready_underway (ready_next hrole h hok hnext) _) rfl
  | write files => exact ready_write files h htodo
  | postgresStarts =>
    rw [act]
    split
    · rename_i hstarts
      exact invariant_of_ready (ready_starts h hstarts.1) htodo
    · exact invariant_of_ready h htodo
  | postgresStops => exact invariant_of_ready (ready_stops h) htodo
  | operator patroni =>
    rw [act, htodo]
    exact invariant_of_ready h htodo

/-- Between the attempts. -/
theorem invariant_idle (h : Kept s) (htodo : s.todo = none) (a : Act ν δ) :
    Invariant R (act R s a) := by
  cases a with
  | attempt =>
    rw [act]
    split
    · rename_i files _ hwal
      cases h with
      | inPlace hw => exact hw
      | linked hw _ => exact absurd (hw.symm.trans hwal) (by simp)
      | halfway hw _ _ => exact absurd (hw.symm.trans hwal) (by simp)
    · exact invariant_of_kept h htodo
  | task o =>
    rw [act, htodo]
    exact invariant_of_kept h htodo
  | write files =>
    rw [act]
    split
    · exact invariant_of_kept (.inPlace rfl) htodo
    · rename_i _ hwal _
      exact invariant_of_kept (.linked hwal rfl) htodo
    · exact invariant_of_kept h htodo
  | postgresStarts =>
    rw [act]
    split
    · rename_i hstarts
      refine invariant_of_kept ?_ htodo
      cases h with
      | inPlace hw => exact .inPlace hw
      | linked hw ht => exact .linked hw ht
      | halfway hw _ _ =>
        rw [Host.contents, hw] at hstarts
        exact absurd hstarts.2 (by simp)
    · exact invariant_of_kept h htodo
  | postgresStops => exact invariant_of_kept (kept_congr h rfl rfl rfl (fun _ => rfl)) htodo
  | operator patroni =>
    rw [act]
    split
    · exact invariant_of_kept (kept_congr h rfl rfl rfl id) htodo
    · exact invariant_of_kept h htodo

theorem invariant_act (hrole : R.isLeader = true ∨ R.isReplica = true) (h : Invariant R s)
    (a : Act ν δ) : Invariant R (act R s a) := by
  cases htodo : s.todo with
  | none =>
    rw [Invariant, htodo] at h
    exact invariant_idle h htodo a
  | some t =>
    rw [Invariant, htodo] at h
    exact invariant_underway hrole h htodo a

theorem kept_of_invariant (h : Invariant R s) : Kept s := by
  rw [Invariant] at h
  split at h
  · exact h
  · exact kept_of_ready h

/-- The role has not been at work on the host, and the WAL is in the data directory. -/
structure Fresh (s : Host ν δ) : Prop where
  wal : s.wal = .dir s.written
  todo : s.todo = none

theorem invariant_run (hrole : R.isLeader = true ∨ R.isReplica = true) (hs : Fresh s)
    (as : List (Act ν δ)) : Invariant R (run (act R) s as) :=
  run_of (I := Invariant R) (fun _ a h => invariant_act hrole h a)
    (invariant_of_kept (.inPlace hs.wal) hs.todo) as

/-- In every state of every run, wherever tasks fail and however often the role is run again, all
that PostgreSQL has written is in one piece. -/
theorem wal_kept (hrole : R.isLeader = true ∨ R.isReplica = true) (hs : Fresh s)
    (as : List (Act ν δ)) : Kept (run (act R) s as) :=
  kept_of_invariant (invariant_run hrole hs as)

/-- The link is missing, and no attempt is under way. -/
structure Halfway (s : Host ν δ) : Prop where
  wal : s.wal = .absent
  todo : s.todo = none

theorem halfway_act (h : Halfway s) (a : Act ν δ) :
    Halfway (act R s a) ∧ (act R s a).written = s.written := by
  cases a with
  | attempt =>
    rw [act, h.todo, h.wal]
    exact ⟨h, rfl⟩
  | task o =>
    rw [act, h.todo]
    exact ⟨h, rfl⟩
  | write files =>
    rw [act, h.wal]
    cases s.postgres <;> exact ⟨h, rfl⟩
  | postgresStarts =>
    rw [act]
    split
    · exact ⟨⟨h.wal, h.todo⟩, rfl⟩
    · exact ⟨h, rfl⟩
  | postgresStops => exact ⟨⟨h.wal, h.todo⟩, rfl⟩
  | operator patroni =>
    rw [act]
    split
    · exact ⟨⟨h.wal, h.todo⟩, rfl⟩
    · exact ⟨h, rfl⟩

/-- An attempt that ends between the renaming and the link is never made good: in every later
state the WAL directory is missing and PostgreSQL does not run, however often the role is run
again, while `postgresql_wal_dir` still holds all of the WAL. -/
theorem halfway_forever (hrole : R.isLeader = true ∨ R.isReplica = true) (hs : Fresh s)
    {as : List (Act ν δ)} (hhalfway : Halfway (run (act R) s as)) (bs : List (Act ν δ)) :
    let s' := run (act R) s (as ++ bs)
    s'.wal = .absent ∧ s'.postgres = false ∧ s'.todo = none ∧
      s'.target = some (run (act R) s as).written := by
  intro s'
  have hkept : Kept s' := kept_of_invariant (invariant_run hrole hs (as ++ bs))
  have hrun : s' = run (act R) (run (act R) s as) bs := run_append s as bs
  have hstill : Halfway s' ∧ s'.written = (run (act R) s as).written := by
    rw [hrun]
    refine run_of (I := fun t : Host ν δ => Halfway t ∧ t.written = (run (act R) s as).written) ?_
      ⟨hhalfway, rfl⟩ bs
    rintro t a ⟨ht, hwritten⟩
    obtain ⟨hnext, hsame⟩ := halfway_act (R := R) ht a
    exact ⟨hnext, hsame.trans hwritten⟩
  obtain ⟨hstill, hwritten⟩ := hstill
  cases hkept with
  | inPlace hw => exact absurd (hw.symm.trans hstill.wal) (by simp)
  | linked hw _ => exact absurd (hw.symm.trans hstill.wal) (by simp)
  | halfway hw ht hp => exact ⟨hw, hp, hstill.todo, ht.trans (congrArg some hwritten)⟩

/-! ## A leader -/

/-- A leader with one segment of WAL. -/
def leaderHost : Host ℕ ℕ :=
  ⟨.dir fun n => if n = 1 then some 0 else none, none, none, true, true, none,
    fun n => if n = 1 then some 0 else none⟩

def leaderRole : Role := ⟨true, false⟩

def done : Act ℕ ℕ := .task ⟨true, true, none⟩

/-- Everything goes well up to the link, which cannot be made. -/
def unlinked : List (Act ℕ ℕ) :=
  .attempt :: List.replicate 6 done ++ .postgresStops :: List.replicate 3 done ++
    [.task ⟨false, false, none⟩]

theorem wal_kept_leader : Kept (run (act leaderRole) leaderHost unlinked) :=
  wal_kept (Or.inl rfl) ⟨rfl, rfl⟩ unlinked

theorem halfway_forever_leader :
    let s := run (act leaderRole) leaderHost (unlinked ++ [.attempt, .postgresStarts])
    s.wal = .absent ∧ s.postgres = false ∧ s.todo = none ∧
      s.target = some (run (act leaderRole) leaderHost unlinked).written :=
  halfway_forever (Or.inl rfl) ⟨rfl, rfl⟩ ⟨rfl, rfl⟩ [.attempt, .postgresStarts]

end PatroniCustomWalDir
