import Autobase.ConsoleClusterPass
import Mathlib.Order.Nat
import Mathlib.Data.Nat.Count

/-! # When the pass of the cluster watcher ends

A round whose read fails leaves the offset where it is and is followed by the next one, so the
rounds that count are those that are answered. -/
namespace ConsoleClusterPassEnd

open ConsoleSchema ConsoleClusterPass PagedReads

/-- The rounds of a loop that is not cancelled, by which of its reads succeed. -/
def pattern (succeeds : ℕ → Bool) (n : ℕ) : Round :=
  if succeeds n then .answered none else .failed

def answers (succeeds : ℕ → Bool) (n : ℕ) : ℕ := Nat.count (fun i => succeeds i = true) n

/-- A read succeeds after the pages of all rows were read. -/
def Answered (succeeds : ℕ → Bool) (rows : ℕ) : Prop :=
  ∃ n, succeeds n = true ∧ rows ≤ 100 * answers succeeds n

variable {succeeds : ℕ → Bool} {pr : Project} {d : Db}

theorem answers_succ_of_answered {n : ℕ} (h : succeeds n = true) :
    answers succeeds (n + 1) = answers succeeds n + 1 := by
  rw [answers, Nat.count_succ, if_pos h]
  rfl

theorem answers_succ_of_failed {n : ℕ} (h : ¬ succeeds n = true) :
    answers succeeds (n + 1) = answers succeeds n := by
  rw [answers, Nat.count_succ, if_neg h]
  rfl

/-- The offset counts the answers, and the loop returns at the first answer behind the last
row. -/
theorem handleProject_ends_iff (fuel n : ℕ) (s : Loop) (hs : s.returned = false)
    (hoffset : s.offset = 100 * answers succeeds n) :
    (handleProject (pattern succeeds) pr d fuel n s).isSome ↔
      ∃ m, n ≤ m ∧ m < n + fuel ∧ succeeds m = true ∧
        (live pr.projectID d).length ≤ 100 * answers succeeds m := by
  induction fuel generalizing n s with
  | zero =>
    constructor
    · intro h
      cases h
    · rintro ⟨m, hle, hlt, -⟩
      omega
  | succ fuel ih =>
    have hlater : ∀ P : ℕ → Prop, ¬ P n →
        ((∃ m, n + 1 ≤ m ∧ m < n + 1 + fuel ∧ P m) ↔ ∃ m, n ≤ m ∧ m < n + (fuel + 1) ∧ P m) := by
      intro P hn
      constructor
      · rintro ⟨m, hle, hlt, hm⟩
        exact ⟨m, by omega, by omega, hm⟩
      · rintro ⟨m, hle, hlt, hm⟩
        rcases Nat.eq_or_lt_of_le hle with rfl | hlt'
        · exact absurd hm hn
        · exact ⟨m, hlt', by omega, hm⟩
    rw [handleProject]
    by_cases hn : succeeds n = true
    · rw [pattern, if_pos hn, round_answered]
      by_cases hend : (live pr.projectID d).length ≤ s.offset
      · rw [if_pos hend]
        simp only [if_true, Option.isSome_some, true_iff]
        exact ⟨n, le_refl n, by omega, hn, hoffset ▸ hend⟩
      · rw [if_neg hend]
        simp only [hs, Bool.false_eq_true, if_false]
        rw [ih (n + 1) _ rfl (by simp only [answers_succ_of_answered hn, hoffset]; omega)]
        apply hlater
        rintro ⟨-, hle⟩
        exact hend (hoffset ▸ hle)
    · rw [pattern, if_neg hn]
      simp only [ConsoleClusterPass.round, hs, Bool.false_eq_true, if_false]
      rw [ih (n + 1) s hs (by rw [answers_succ_of_failed hn, hoffset])]
      apply hlater
      rintro ⟨hsucceeds, -⟩
      exact hn hsucceeds

def ProjectEnds (succeeds : ℕ → Bool) (pr : Project) (d : Db) (handled : List Cluster) : Prop :=
  ∃ fuel, (handleProject (pattern succeeds) pr d fuel 0 (.start handled)).isSome

theorem projectEnds_iff (succeeds : ℕ → Bool) (pr : Project) (d : Db) (handled : List Cluster) :
    ProjectEnds succeeds pr d handled ↔ Answered succeeds (live pr.projectID d).length := by
  have hloop : ∀ fuel, (handleProject (pattern succeeds) pr d fuel 0 (.start handled)).isSome ↔ _ :=
    fun fuel => handleProject_ends_iff fuel 0 (.start handled) rfl (by simp [Loop.start, answers])
  constructor
  · rintro ⟨fuel, hends⟩
    obtain ⟨m, -, -, hm⟩ := (hloop fuel).mp hends
    exact ⟨m, hm⟩
  · rintro ⟨m, hm⟩
    exact ⟨m + 1, (hloop (m + 1)).mpr ⟨m, Nat.zero_le m, by omega, hm⟩⟩

theorem handleProject_mono {rounds : ℕ → Round} {fuel fuel' n : ℕ} {s s' : Loop}
    (h : handleProject rounds pr d fuel n s = some s') (hle : fuel ≤ fuel') :
    handleProject rounds pr d fuel' n s = some s' := by
  induction fuel generalizing fuel' n s with
  | zero => cases h
  | succ fuel ih =>
    obtain ⟨fuel', rfl⟩ : ∃ k, fuel' = k + 1 := ⟨fuel' - 1, by omega⟩
    rw [handleProject] at h ⊢
    by_cases hr : (ConsoleClusterPass.round pr d s (rounds n)).returned = true
    · rw [if_pos hr] at h ⊢
      exact h
    · rw [if_neg hr] at h ⊢
      exact ih h (by omega)

theorem handleProjects_mono {p : Pass} {fuel fuel' : ℕ} {prs : List Project}
    {handled handled' : List Cluster} (h : handleProjects p d fuel prs handled = some handled')
    (hle : fuel ≤ fuel') : handleProjects p d fuel' prs handled = some handled' := by
  induction prs generalizing handled with
  | nil => exact h
  | cons pr prs ih =>
    rw [handleProjects] at h ⊢
    obtain ⟨s, hloop, hrest⟩ := Option.bind_eq_some_iff.mp h
    rw [handleProject_mono hloop hle, Option.bind_some]
    exact ih hrest

theorem handleProjects_ends_iff (succeeds : Project → ℕ → Bool) (d : Db) (prs : List Project)
    (handled : List Cluster) :
    (∃ fuel, (handleProjects ⟨false, fun pr => pattern (succeeds pr)⟩ d fuel prs
        handled).isSome) ↔
      ∀ pr ∈ prs, Answered (succeeds pr) (live pr.projectID d).length := by
  induction prs generalizing handled with
  | nil => simp [handleProjects]
  | cons pr prs ih =>
    rw [List.forall_mem_cons, ← projectEnds_iff (succeeds pr) pr d handled]
    constructor
    · rintro ⟨fuel, hends⟩
      obtain ⟨handled', hall⟩ := Option.isSome_iff_exists.mp hends
      rw [handleProjects] at hall
      obtain ⟨s, hloop, hrest⟩ := Option.bind_eq_some_iff.mp hall
      refine ⟨⟨fuel, Option.isSome_iff_exists.mpr ⟨s, hloop⟩⟩, ?_⟩
      exact (ih s.handled).mp ⟨fuel, Option.isSome_iff_exists.mpr ⟨handled', hrest⟩⟩
    · rintro ⟨⟨fuel, hfirst⟩, hothers⟩
      obtain ⟨s, hloop⟩ := Option.isSome_iff_exists.mp hfirst
      obtain ⟨fuel', hends⟩ := (ih s.handled).mpr hothers
      obtain ⟨handled', hrest⟩ := Option.isSome_iff_exists.mp hends
      refine ⟨max fuel fuel', Option.isSome_iff_exists.mpr ⟨handled', ?_⟩⟩
      rw [handleProjects]
      apply Option.bind_eq_some_iff.mpr
      exact ⟨s, handleProject_mono hloop (le_max_left fuel fuel'),
        handleProjects_mono hrest (le_max_right fuel fuel')⟩

def PassEnds (succeeds : Project → ℕ → Bool) (d : Db) : Prop :=
  ∃ fuel, (doWork ⟨false, fun pr => pattern (succeeds pr)⟩ fuel d).isSome

/-- A loop ends exactly when its reads are answered once more than the pages of its rows need,
and the pass goes on to the next project each time exactly when all its loops end. -/
theorem pass_ends_iff (succeeds : Project → ℕ → Bool) (d : Db) :
    (∀ pr handled, ProjectEnds (succeeds pr) pr d handled ↔
      Answered (succeeds pr) (live pr.projectID d).length) ∧
    (PassEnds succeeds d ↔ ∀ pr ∈ (getProjects (some 1000) (some 0) d).1,
      Answered (succeeds pr) (live pr.projectID d).length) :=
  ⟨fun pr handled => projectEnds_iff (succeeds pr) pr d handled,
    handleProjects_ends_iff succeeds d _ []⟩

theorem not_answered_of_failing (rows : ℕ) : ¬ Answered (fun _ => false) rows := by
  rintro ⟨n, hn, -⟩
  exact Bool.false_ne_true hn

/-- With reads that fail on every attempt the pass stays with its first project. -/
theorem failing_reads_never_end :
    ¬ ProjectEnds (fun _ => false) ⟨1, "default"⟩ deploying [] ∧
      ¬ PassEnds (fun _ _ => false) deploying := by
  constructor
  · intro h
    exact not_answered_of_failing _ ((projectEnds_iff _ _ _ _).mp h)
  · intro h
    have hfirst : (⟨1, "default"⟩ : Project) ∈ (getProjects (some 1000) (some 0) deploying).1 :=
      List.mem_cons_self
    exact not_answered_of_failing _ ((handleProjects_ends_iff _ _ _ _).mp h _ hfirst)

end ConsoleClusterPassEnd
