import Mathlib.Data.List.Basic
import Mathlib.Data.List.Nodup

/-! # Plays

Tasks run in turn on the hosts of a play. A task that runs once is decided and done on the first
host that is left, and its failure ends the play; another task is decided on every host, and a
host on which it fails is left out from then on. -/
namespace AnsiblePlays

variable {η σ : Type*} [DecidableEq η]

/-- The action gives the new state and whether it succeeded. -/
structure Task (η σ : Type*) where
  runOnce : Bool
  condition : η → σ → Bool
  action : η → σ → σ × Bool

structure Play (η σ : Type*) where
  hosts : List η
  state : σ

namespace Task

variable (t : Task η σ)

def runOn (h : η) (p : Play η σ) : Play η σ :=
  if t.condition h p.state then
    let result := t.action h p.state
    if result.2 then { p with state := result.1 }
    else ⟨p.hosts.filter fun g => decide (g ≠ h), result.1⟩
  else p

def runFirst (p : Play η σ) : Play η σ :=
  match p.hosts with
  | [] => p
  | h :: _ =>
    if t.condition h p.state then
      let result := t.action h p.state
      if result.2 then { p with state := result.1 } else ⟨[], result.1⟩
    else p

def run (p : Play η σ) : Play η σ :=
  if t.runOnce then t.runFirst p else p.hosts.foldl (fun q h => t.runOn h q) p

variable {t} {p : Play η σ} {h : η}

theorem runOn_skipped (hcondition : t.condition h p.state = false) : t.runOn h p = p := by
  rw [runOn, if_neg (by simp [hcondition])]

theorem run_ended (hp : p.hosts = []) : t.run p = p := by
  rw [run, runFirst, hp]
  simp

theorem run_first_skipped {hs : List η} (honce : t.runOnce = true) (hp : p.hosts = h :: hs)
    (hcondition : t.condition h p.state = false) : t.run p = p := by
  rw [run, if_pos honce, runFirst, hp]
  simp [hcondition]

theorem run_first {hs : List η} (honce : t.runOnce = true) (hp : p.hosts = h :: hs)
    (hcondition : t.condition h p.state = true) :
    t.run p = if (t.action h p.state).2 then { p with state := (t.action h p.state).1 }
      else ⟨[], (t.action h p.state).1⟩ := by
  rw [run, if_pos honce, runFirst, hp]
  simp [hcondition]

theorem foldl_skipped {hs : List η} (hskip : ∀ g ∈ hs, ∀ s, t.condition g s = false)
    (p : Play η σ) : hs.foldl (fun q g => t.runOn g q) p = p := by
  induction hs with
  | nil => rfl
  | cons g hs ih =>
    obtain ⟨hg, hrest⟩ := List.forall_mem_cons.mp hskip
    rw [List.foldl_cons, runOn_skipped (hg p.state)]
    exact ih hrest

/-- A task meant for one host is done there. -/
theorem run_only (honce : t.runOnce = false) (hmem : h ∈ p.hosts) (hnodup : p.hosts.Nodup)
    (honly : ∀ g s, g ≠ h → t.condition g s = false) : t.run p = t.runOn h p := by
  obtain ⟨before, after, hhosts⟩ := List.append_of_mem hmem
  rw [hhosts] at hnodup
  obtain ⟨-, hafter, hdisjoint⟩ := List.nodup_append.mp hnodup
  have hbefore : ∀ g ∈ before, g ≠ h := fun g hg => hdisjoint g hg h List.mem_cons_self
  have hafter' : ∀ g ∈ after, g ≠ h := by
    rintro g hg rfl
    exact (List.nodup_cons.mp hafter).1 hg
  rw [run, if_neg (by simp [honce]), hhosts, List.foldl_append,
    foldl_skipped fun g hg s => honly g s (hbefore g hg), List.foldl_cons]
  exact foldl_skipped (fun g hg s => honly g s (hafter' g hg)) _

/-- What the action keeps wherever it is done, the task keeps. -/
theorem run_keeps {I : σ → Prop}
    (haction : ∀ h s, t.condition h s = true → I s → I (t.action h s).1) (hp : I p.state) :
    I (t.run p).state := by
  have hon : ∀ (g : η) (q : Play η σ), I q.state → I (t.runOn g q).state := by
    intro g q hq
    rw [runOn]
    split
    · rename_i hcondition
      have hkept := haction g q.state hcondition hq
      simp only
      split
      · exact hkept
      · exact hkept
    · exact hq
  rw [run]
  split
  · rw [runFirst]
    split
    · exact hp
    · split
      · rename_i hcondition
        have hkept := haction _ p.state hcondition hp
        simp only
        split
        · exact hkept
        · exact hkept
      · exact hp
  · have hfold : ∀ (hs : List η) (q : Play η σ), I q.state →
        I (hs.foldl (fun q h => t.runOn h q) q).state := by
      intro hs
      induction hs with
      | nil => exact fun q hq => hq
      | cons g hs ih => exact fun q hq => ih _ (hon g q hq)
    exact hfold p.hosts p hp

end Task

def runAll (tasks : List (Task η σ)) (p : Play η σ) : Play η σ := tasks.foldl (fun q t => t.run q) p

theorem runAll_cons (t : Task η σ) (tasks : List (Task η σ)) (p : Play η σ) :
    runAll (t :: tasks) p = runAll tasks (t.run p) := rfl

theorem runAll_ended {p : Play η σ} (hp : p.hosts = []) (tasks : List (Task η σ)) :
    runAll tasks p = p := by
  induction tasks with
  | nil => rfl
  | cons t tasks ih => rw [runAll_cons, Task.run_ended hp, ih]

theorem runAll_append (tasks tasks' : List (Task η σ)) (p : Play η σ) :
    runAll (tasks ++ tasks') p = runAll tasks' (runAll tasks p) :=
  List.foldl_append

theorem runAll_keeps {I : σ → Prop} {tasks : List (Task η σ)} {p : Play η σ}
    (haction : ∀ t ∈ tasks, ∀ h s, t.condition h s = true → I s → I (t.action h s).1)
    (hp : I p.state) : I (runAll tasks p).state := by
  induction tasks generalizing p with
  | nil => exact hp
  | cons t tasks ih =>
    obtain ⟨ht, hrest⟩ := List.forall_mem_cons.mp haction
    exact ih hrest (Task.run_keeps ht hp)

end AnsiblePlays
