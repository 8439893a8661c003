import Autobase.TransitionRuns
import Mathlib.Data.List.ProdSigma
import Mathlib.Data.List.FinRange
import Mathlib.Algebra.BigOperators.Group.List.Basic
import Mathlib.Algebra.Ring.Nat

/-! # PAUSE of all PgBouncer processes

The script sends PAUSE to all processes of all servers until each of them has answered, and resumes
them when only some have. It sees the processes through the lines that they print, and a process
that does not answer in time prints nothing but goes on pausing. -/
namespace PgbouncerPause

open TransitionRuns

abbrev Text := List Char

/-! ## Answers -/

/-- A process that pauses has not completed its PAUSE yet. -/
inductive Pool where
  | active | pausing | paused
  deriving DecidableEq

def pauseWord : Text := "PAUSE".toList

def alreadyWord : Text := "already suspended/paused".toList

/-- The matches that `grep -o` prints for a line; `skip` characters belong to the last one. -/
def matchesFrom : ℕ → Text → ℕ
  | _, [] => 0
  | 0, ch :: t =>
    if pauseWord.isPrefixOf (ch :: t) then matchesFrom (pauseWord.length - 1) t + 1
    else if alreadyWord.isPrefixOf (ch :: t) then matchesFrom (alreadyWord.length - 1) t + 1
    else matchesFrom 0 t
  | skip + 1, _ :: t => matchesFrom skip t

def wordCount (lines : List Text) : ℕ := (lines.map (matchesFrom 0)).sum

/-- The lines of an error, which have none of the words. -/
structure Failure where
  lines : List Text
  wordless : wordCount lines = 0

/-- How PAUSE ends for a process: with its answer, at the timeout, or with an error. -/
inductive Outcome where
  | answered
  | cutOff
  | failed (failure : Failure)

def Outcome.isAnswered : Outcome → Bool
  | .answered => true
  | _ => false

def Outcome.isCutOff : Outcome → Bool
  | .cutOff => true
  | _ => false

/-- A process goes on pausing after its client is gone, and a pool that is not active says so. -/
def Pool.after : Pool → Outcome → Pool
  | .active, .answered => .paused
  | .active, .cutOff => .pausing
  | pool, _ => pool

def Pool.lines : Pool → Outcome → List Text
  | .active, .answered => [pauseWord]
  | _, .answered => ["ERROR:  ".toList ++ alreadyWord]
  | _, .cutOff => []
  | _, .failed failure => failure.lines

def Pool.settled : Pool → Bool → Pool
  | .pausing, true => .paused
  | pool, _ => pool

/-! ## The loop -/

variable {servers perServer : ℕ}

/-- A process is a server and one of its sockets. -/
abbrev Process (servers perServer : ℕ) := Fin servers × Fin perServer

def processes (servers perServer : ℕ) : List (Process servers perServer) :=
  List.finRange servers ×ˢ List.finRange perServer

inductive Status where
  | looping
  | exited (code : ℕ)
  deriving DecidableEq

structure State (servers perServer : ℕ) where
  pools : Process servers perServer → Pool
  status : Status

/-- What an iteration meets: its time since the start, the slow queries of the servers, which
processes have completed their PAUSE in the meantime, and how a new one ends. -/
structure Iteration (servers perServer : ℕ) where
  elapsed : ℕ
  slowActiveCounts : List ℕ
  completed : Process servers perServer → Bool
  outcome : Process servers perServer → Outcome

namespace Iteration

variable (it : Iteration servers perServer) (pools : Process servers perServer → Pool)

def sendsPause : Prop := it.slowActiveCounts.sum = 0

instance : Decidable it.sendsPause := inferInstanceAs (Decidable (_ = _))

def before : Process servers perServer → Pool := fun p => (pools p).settled (it.completed p)

def pauseResults : List Text :=
  (processes servers perServer).flatMap fun p => (it.before pools p).lines (it.outcome p)

def pgbPausedCount : ℕ := if it.sendsPause then wordCount (it.pauseResults pools) else 0

def afterPause : Process servers perServer → Pool := fun p =>
  if it.sendsPause then (it.before pools p).after (it.outcome p) else it.before pools p

/-- The resume of all processes when some but not all are counted. -/
def afterResume : Process servers perServer → Pool := fun p =>
  if 0 < it.pgbPausedCount pools then .active else it.afterPause pools p

end Iteration

def step (stopAfter : ℕ) (s : State servers perServer) (it : Iteration servers perServer) :
    State servers perServer :=
  if s.status ≠ .looping then s
  else if it.pgbPausedCount s.pools = servers * perServer then
    { pools := it.afterPause s.pools, status := .exited 0 }
  else
    { pools := it.afterResume s.pools
      status := if stopAfter ≤ it.elapsed then .exited 1 else .looping }

def start : State servers perServer where
  pools := fun _ => .active
  status := .looping

/-- After code 0 all processes have completed their PAUSE, after code 1 none is left in one. -/
structure AllOrNothing (s : State servers perServer) : Prop where
  all : s.status = .exited 0 → ∀ p, s.pools p = .paused
  nothing : s.status = .exited 1 → ∀ p, s.pools p = .active

/-- Where PAUSE is sent and cut off for a process, another process answers. -/
def Noticed (it : Iteration servers perServer) : Prop :=
  it.sendsPause → (∃ p, (it.outcome p).isCutOff) → ∃ p, (it.outcome p).isAnswered

/-! ## Counting -/

theorem wordCount_append (xs ys : List Text) :
    wordCount (xs ++ ys) = wordCount xs + wordCount ys := by
  rw [wordCount, List.map_append, List.sum_append, wordCount, wordCount]

/-- A process is counted when it answers. -/
theorem wordCount_lines (pool : Pool) (outcome : Outcome) :
    wordCount (pool.lines outcome) = if outcome.isAnswered then 1 else 0 := by
  have hpause : wordCount [pauseWord] = 1 := by
    decide +kernel
  have halready : wordCount ["ERROR:  ".toList ++ alreadyWord] = 1 := by
    decide +kernel
  cases outcome with
  | answered =>
    cases pool with
    | active => exact hpause
    | pausing => exact halready
    | paused => exact halready
  | cutOff => cases pool <;> rfl
  | failed failure => cases pool <;> exact failure.wordless

theorem wordCount_flatMap (ps : List (Process servers perServer))
    (pool : Process servers perServer → Pool) (outcome : Process servers perServer → Outcome) :
    wordCount (ps.flatMap fun p => (pool p).lines (outcome p)) =
      ps.countP fun p => (outcome p).isAnswered := by
  induction ps with
  | nil => rfl
  | cons p ps ih =>
    rw [List.flatMap_cons, wordCount_append, ih, wordCount_lines, List.countP_cons, add_comm]

theorem mem_processes (p : Process servers perServer) : p ∈ processes servers perServer :=
  List.mem_product.mpr ⟨List.mem_finRange _, List.mem_finRange _⟩

theorem length_processes : (processes servers perServer).length = servers * perServer := by
  rw [processes, List.length_product, List.length_finRange, List.length_finRange]

variable {it : Iteration servers perServer} {pools : Process servers perServer → Pool}

theorem pgbPausedCount_eq (h : it.sendsPause) : it.pgbPausedCount pools =
    (processes servers perServer).countP fun p => (it.outcome p).isAnswered := by
  rw [Iteration.pgbPausedCount, if_pos h, Iteration.pauseResults, wordCount_flatMap]

theorem pgbPausedCount_all (h : it.sendsPause) :
    it.pgbPausedCount pools = servers * perServer ↔ ∀ p, (it.outcome p).isAnswered := by
  rw [pgbPausedCount_eq h, ← length_processes, List.countP_eq_length]
  exact ⟨fun hall p => hall p (mem_processes p), fun hall p _ => hall p⟩

theorem pgbPausedCount_pos (h : it.sendsPause) :
    0 < it.pgbPausedCount pools ↔ ∃ p, (it.outcome p).isAnswered := by
  rw [pgbPausedCount_eq h, List.countP_pos_iff]
  exact ⟨fun ⟨p, _, hp⟩ => ⟨p, hp⟩, fun ⟨p, hp⟩ => ⟨p, mem_processes p, hp⟩⟩

/-! ## One iteration -/

theorem before_active (h : ∀ p, pools p = .active) (p : Process servers perServer) :
    it.before pools p = .active := by
  rw [Iteration.before, h p]
  cases it.completed p <;> rfl

/-- When all processes are active and all are counted, all are paused. -/
theorem afterPause_all (h : ∀ p, pools p = .active)
    (hcount : it.pgbPausedCount pools = servers * perServer) (p : Process servers perServer) :
    it.afterPause pools p = .paused := by
  have hprocesses : 0 < servers * perServer := by
    rw [← length_processes]
    exact List.length_pos_of_mem (mem_processes p)
  by_cases hs : it.sendsPause
  · have hanswered := (pgbPausedCount_all hs).mp hcount p
    rw [Iteration.afterPause, if_pos hs, before_active h]
    cases houtcome : it.outcome p with
    | answered => rfl
    | cutOff => rw [houtcome] at hanswered; cases hanswered
    | failed failure => rw [houtcome] at hanswered; cases hanswered
  · rw [Iteration.pgbPausedCount, if_neg hs] at hcount
    omega

/-- When a cut off is noticed, all processes are active after the resume. -/
theorem afterResume_active (h : ∀ p, pools p = .active) (hn : Noticed it)
    (p : Process servers perServer) : it.afterResume pools p = .active := by
  rw [Iteration.afterResume]
  split
  · rfl
  · next hnone =>
    rw [Iteration.afterPause]
    split
    · next hs =>
      rw [before_active h]
      have hno : ¬ ∃ p, (it.outcome p).isAnswered := fun hc =>
        hnone ((pgbPausedCount_pos hs).mpr hc)
      cases houtcome : it.outcome p with
      | answered => exact absurd ⟨p, by rw [houtcome]; rfl⟩ hno
      | cutOff => exact absurd (hn hs ⟨p, by rw [houtcome]; rfl⟩) hno
      | failed failure => rfl
    · exact before_active h p

/-- A cut off that is not noticed leaves the process pausing. -/
theorem afterResume_pausing (h : ∀ p, pools p = .active) (hn : ¬ Noticed it) :
    ∃ p, it.afterResume pools p = .pausing := by
  rw [Noticed, Classical.not_imp, Classical.not_imp] at hn
  obtain ⟨hs, ⟨p, hp⟩, hno⟩ := hn
  refine ⟨p, ?_⟩
  rw [Iteration.afterResume, if_neg fun hpos => hno ((pgbPausedCount_pos hs).mp hpos),
    Iteration.afterPause, if_pos hs, before_active h]
  cases houtcome : it.outcome p with
  | answered => rw [houtcome] at hp; cases hp
  | cutOff => rfl
  | failed failure => rw [houtcome] at hp; cases hp

/-! ## Runs -/

/-- While the script loops no process is in a PAUSE. -/
structure Invariant (s : State servers perServer) : Prop extends AllOrNothing s where
  looping : s.status = .looping → ∀ p, s.pools p = .active

variable {stopAfter : ℕ} {s : State servers perServer}

theorem start_invariant : Invariant (start : State servers perServer) where
  all := fun h => nomatch h
  nothing := fun h => nomatch h
  looping := fun _ _ => rfl

theorem step_invariant (hs : Invariant s) (hn : Noticed it) : Invariant (step stopAfter s it) := by
  rw [step]
  split
  · exact hs
  · next hlooping =>
    have hactive := hs.looping (not_not.mp hlooping)
    split
    · next hcount =>
      exact ⟨⟨fun _ => afterPause_all hactive hcount, fun h => nomatch h⟩, fun h => nomatch h⟩
    · have hafter := afterResume_active hactive hn
      refine ⟨⟨fun h => ?_, fun _ => hafter⟩, fun _ => hafter⟩
      simp only at h
      split at h
      · cases h
      · cases h

/-- In every run whose cut offs are noticed, every state is all or nothing. -/
theorem visited_all_or_nothing {its : List (Iteration servers perServer)}
    (h : ∀ it ∈ its, Noticed it) :
    ∀ t ∈ visited (step stopAfter) start its, AllOrNothing t := by
  have halong : Along (step stopAfter) (fun _ it => Noticed it)
      (start : State servers perServer) its :=
    along_of_mem fun it hit _ => h it hit
  intro t ht
  exact (visited_of_along (fun _ _ hs hn => step_invariant hs hn) start_invariant halong t
    ht).toAllOrNothing

/-- Outside the condition an iteration of a clean script that does not exit with 0 leaves a process
pausing. -/
theorem step_pausing (hlooping : s.status = .looping) (hactive : ∀ p, s.pools p = .active)
    (hn : ¬ Noticed it) (hexit : (step stopAfter s it).status ≠ .exited 0) :
    ∃ p, (step stopAfter s it).pools p = .pausing := by
  rw [step, if_neg (not_not_intro hlooping)] at hexit ⊢
  split at hexit
  · exact absurd rfl hexit
  · next hcount =>
    rw [if_neg hcount]
    exact afterResume_pausing hactive hn

/-! ## Two servers with one process each -/

/-- PAUSE is sent; the first process answers. -/
def firstAnswers (elapsed : ℕ) (second : Outcome) : Iteration 2 1 where
  elapsed := elapsed
  slowActiveCounts := [0, 0]
  completed := fun _ => false
  outcome := fun p => if p.1 = 0 then .answered else second

theorem noticed_firstAnswers (elapsed : ℕ) (second : Outcome) :
    Noticed (firstAnswers elapsed second) :=
  fun _ _ => ⟨(0, 0), rfl⟩

/-- The second process is cut off and both are resumed. Then both answer, or time is up. -/
theorem resumed_all_or_nothing :
    let s := run (step 60) start [firstAnswers 0 .cutOff]
    let t := run (step 60) start [firstAnswers 0 .cutOff, firstAnswers 3 .answered]
    let u := run (step 60) start [firstAnswers 0 .cutOff, firstAnswers 60 .cutOff]
    (s.status = .looping ∧ ∀ p, s.pools p = .active) ∧
      (t.status = .exited 0 ∧ AllOrNothing t) ∧ (u.status = .exited 1 ∧ AllOrNothing u) := by
  have hnoticed : ∀ second, ∀ it ∈ [firstAnswers 0 .cutOff, second],
      Noticed second → Noticed it := by
    intro second it hit hsecond
    rcases List.mem_cons.mp hit with rfl | hit
    · exact noticed_firstAnswers 0 .cutOff
    · rw [List.mem_singleton.mp hit]
      exact hsecond
  have hlooping : (run (step 60) start [firstAnswers 0 .cutOff]).status = .looping := by
    decide +kernel
  refine ⟨⟨hlooping, ?_⟩, ⟨by decide +kernel, ?_⟩, by decide +kernel, ?_⟩
  · exact (step_invariant start_invariant (noticed_firstAnswers 0 .cutOff)).looping hlooping
  · exact visited_all_or_nothing
      (fun it hit => hnoticed _ it hit (noticed_firstAnswers 3 .answered)) _
      (run_mem_visited (List.cons_ne_nil _ _))
  · exact visited_all_or_nothing
      (fun it hit => hnoticed _ it hit (noticed_firstAnswers 60 .cutOff)) _
      (run_mem_visited (List.cons_ne_nil _ _))

/-! ## One process -/

/-- A single process, PAUSE is sent, and it ends the same way everywhere. -/
def iteration (elapsed : ℕ) (outcome : Outcome) : Iteration 1 1 where
  elapsed := elapsed
  slowActiveCounts := [0]
  completed := fun _ => false
  outcome := fun _ => outcome

/-- A process that was cut off answers the next PAUSE while it is still pausing, and the script
exits with 0; or the script exits with 1 and leaves it pausing. -/
theorem pausing_at_exit :
    (∃ t ∈ visited (step 60) start [iteration 0 .cutOff, iteration 2 .answered],
      t.status = .exited 0 ∧ t.pools (0, 0) = .pausing ∧ ¬ AllOrNothing t) ∧
    (∃ t ∈ visited (step 60) start [iteration 60 .cutOff],
      t.status = .exited 1 ∧ t.pools (0, 0) = .pausing ∧ ¬ AllOrNothing t) := by
  refine ⟨⟨_, List.mem_cons_of_mem _ List.mem_cons_self, ?_⟩, ⟨_, List.mem_cons_self, ?_⟩⟩
  · have hstatus : (step 60 (step 60 start (iteration 0 .cutOff)) (iteration 2 .answered)).status =
        .exited 0 := by
      decide +kernel
    have hpool : (step 60 (step 60 start (iteration 0 .cutOff)) (iteration 2 .answered)).pools
        (0, 0) = .pausing := by
      decide +kernel
    exact ⟨hstatus, hpool, fun h => nomatch hpool.symm.trans (h.all hstatus (0, 0))⟩
  · have hstatus : (step 60 start (iteration 60 .cutOff)).status = .exited 1 := by
      decide +kernel
    have hpool : (step 60 start (iteration 60 .cutOff)).pools (0, 0) = .pausing := by
      decide +kernel
    exact ⟨hstatus, hpool, fun h => nomatch hpool.symm.trans (h.nothing hstatus (0, 0))⟩

end PgbouncerPause
