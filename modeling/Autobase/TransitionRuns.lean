import Mathlib.Data.List.Basic

/-! # Runs of a step function

A run is a list of actions. A property of every visited state, or of everything a run
emits, is reduced here to what one step does from a state that satisfies an invariant. -/
namespace TransitionRuns

variable {σ α ε : Type*}

def run (step : σ → α → σ) (s : σ) (as : List α) : σ := as.foldl step s

/-- The states after each action, without the first one. -/
def visited (step : σ → α → σ) : σ → List α → List σ
  | _, [] => []
  | s, a :: as => step s a :: visited step (step s a) as

/-- The guard holds before every action. -/
def Along (step : σ → α → σ) (G : σ → α → Prop) : σ → List α → Prop
  | _, [] => True
  | s, a :: as => G s a ∧ Along step G (step s a) as

instance decidableAlong (step : σ → α → σ) (G : σ → α → Prop) [∀ s a, Decidable (G s a)] :
    (s : σ) → (as : List α) → Decidable (Along step G s as)
  | _, [] => inferInstanceAs (Decidable True)
  | s, a :: as =>
    have := decidableAlong step G (step s a) as
    inferInstanceAs (Decidable (G s a ∧ Along step G (step s a) as))

def trace (step : σ → α → σ) (emits : σ → α → List ε) : σ → List α → List ε
  | _, [] => []
  | s, a :: as => emits s a ++ trace step emits (step s a) as

variable {step : σ → α → σ} {emits : σ → α → List ε}

@[simp] theorem run_nil (s : σ) : run step s [] = s := rfl

@[simp] theorem run_cons (s : σ) (a : α) (as : List α) :
    run step s (a :: as) = run step (step s a) as := rfl

theorem run_append (s : σ) (as bs : List α) :
    run step s (as ++ bs) = run step (run step s as) bs :=
  List.foldl_append

theorem run_mem_visited {s : σ} {as : List α} (h : as ≠ []) :
    run step s as ∈ visited step s as := by
  induction as generalizing s with
  | nil => exact absurd rfl h
  | cons a as ih =>
    cases as with
    | nil => exact List.mem_cons_self
    | cons b as => exact List.mem_cons_of_mem _ (ih (List.cons_ne_nil b as))

/-- An invariant that counts the completed steps. -/
theorem run_indexed {P : ℕ → σ → Prop} {as : List α} {s : σ} (h₀ : P 0 s)
    (hstep : ∀ n a t, as[n]? = some a → P n t → P (n + 1) (step t a)) :
    P as.length (run step s as) := by
  suffices h : ∀ n, n ≤ as.length → P n (run step s (as.take n)) by
    simpa using h as.length (Nat.le_refl _)
  intro n
  induction n with
  | zero =>
    intro _
    simpa using h₀
  | succ n ih =>
    intro hn
    obtain ⟨a, ha⟩ : ∃ a, as[n]? = some a := ⟨_, List.getElem?_eq_getElem hn⟩
    rw [List.take_add_one, ha, run_append]
    exact hstep n a _ ha (ih (Nat.le_of_succ_le hn))

section Invariants

variable {I P : σ → Prop} {G : σ → α → Prop} {Q : ε → Prop}

theorem visited_of_along (hstep : ∀ s a, I s → G s a → I (step s a)) {s : σ} (hs : I s)
    {as : List α} (h : Along step G s as) : ∀ t ∈ visited step s as, I t := by
  induction as generalizing s with
  | nil => intro t ht; cases ht
  | cons a as ih =>
    intro t ht
    rcases List.mem_cons.mp ht with rfl | ht
    · exact hstep s a hs h.1
    · exact ih (hstep s a hs h.1) h.2 t ht

/-- What the actions of the run keep. -/
theorem run_of_mem {s : σ} {as : List α} (hstep : ∀ a ∈ as, ∀ t, I t → I (step t a)) (hs : I s) :
    I (run step s as) := by
  induction as generalizing s with
  | nil => exact hs
  | cons a as ih =>
    obtain ⟨ha, has⟩ := List.forall_mem_cons.mp hstep
    exact ih has (ha s hs)

theorem run_of (hstep : ∀ s a, I s → I (step s a)) {s : σ} (hs : I s) (as : List α) :
    I (run step s as) :=
  run_of_mem (fun a _ t => hstep t a) hs

theorem run_eq_self {s : σ} {as : List α} (h : ∀ a ∈ as, step s a = s) : run step s as = s :=
  run_of_mem (I := fun t => t = s) (fun a ha t ht => by rw [ht, h a ha]) rfl

/-- A property that comes with certain actions and never goes holds at the end if it held at the
start or one of them was taken. -/
theorem run_gains {E : α → Prop} (hstep : ∀ s a, I s → I (step s a))
    (hgain : ∀ s a, I s → (P (step s a) ↔ P s ∨ E a)) {s : σ} (hs : I s) (as : List α) :
    P (run step s as) ↔ P s ∨ ∃ a ∈ as, E a := by
  induction as generalizing s with
  | nil => simp
  | cons a as ih =>
    rw [run_cons, ih (hstep s a hs), hgain s a hs, List.exists_mem_cons_iff, or_assoc]

/-- What one action of the run brings about and every step keeps. -/
theorem run_establishes {J : σ → Prop} (hstep : ∀ s a, I s → I (step s a))
    (hkeep : ∀ s a, J s → J (step s a)) {a : α} (ha : ∀ s, I s → J (step s a)) {s : σ} (hs : I s)
    {as : List α} (hmem : a ∈ as) : J (run step s as) := by
  obtain ⟨before, after, rfl⟩ := List.append_of_mem hmem
  rw [run_append, run_cons]
  exact run_of hkeep (ha _ (run_of hstep hs before)) after

theorem run_of_along (hstep : ∀ s a, I s → G s a → I (step s a)) {s : σ} (hs : I s)
    {as : List α} (h : Along step G s as) : I (run step s as) := by
  induction as generalizing s with
  | nil => exact hs
  | cons a as ih => exact ih (hstep s a hs h.1) h.2

theorem along_of_mem {s : σ} {as : List α} (h : ∀ a ∈ as, ∀ t, G t a) : Along step G s as := by
  induction as generalizing s with
  | nil => trivial
  | cons a as ih =>
    obtain ⟨ha, has⟩ := List.forall_mem_cons.mp h
    exact ⟨ha s, ih has⟩

theorem Along.last {s : σ} {as : List α} {a : α} (h : Along step G s (as ++ [a])) :
    G (run step s as) a := by
  induction as generalizing s with
  | nil => exact h.1
  | cons b as ih => exact ih h.2

theorem Along.and_of_mem {Q : α → Prop} {s : σ} {as : List α} (h : Along step G s as)
    (hQ : ∀ a ∈ as, Q a) : Along step (fun s a => G s a ∧ Q a) s as := by
  induction as generalizing s with
  | nil => trivial
  | cons a as ih =>
    obtain ⟨ha, has⟩ := List.forall_mem_cons.mp hQ
    exact ⟨⟨h.1, ha⟩, ih h.2 has⟩

/-- No step makes the measure larger, and one outside the guard makes it smaller: a run that
ends no smaller than it began meets the guard throughout. -/
theorem along_of_measure {μ : σ → ℕ} (hle : ∀ s a, μ (step s a) ≤ μ s)
    (hlt : ∀ s a, ¬ G s a → μ (step s a) < μ s) {s : σ} {as : List α}
    (h : μ s ≤ μ (run step s as)) : Along step G s as := by
  have hrun : ∀ (bs : List α) (t : σ), μ (run step t bs) ≤ μ t := by
    intro bs
    induction bs with
    | nil => exact fun t => Nat.le_refl _
    | cons b bs ih => exact fun t => Nat.le_trans (ih (step t b)) (hle t b)
  induction as generalizing s with
  | nil => trivial
  | cons a as ih =>
    have hrest := hrun as (step s a)
    refine ⟨?_, ih (Nat.le_trans (hle s a) h)⟩
    by_contra hG
    have hsmaller := hlt s a hG
    rw [run_cons] at h
    omega

/-- A property kept by the guarded steps and lost by the others holds throughout a run
exactly when the guard does. -/
theorem visited_iff_along (hstep : ∀ s a, I s → I (step s a))
    (hexact : ∀ s a, I s → P s → (P (step s a) ↔ G s a)) {s : σ} (hI : I s) (hP : P s)
    {as : List α} : (∀ t ∈ visited step s as, P t) ↔ Along step G s as := by
  induction as generalizing s with
  | nil => simp [visited, Along]
  | cons a as ih =>
    simp only [visited, Along, List.forall_mem_cons]
    constructor
    · rintro ⟨ha, has⟩
      exact ⟨(hexact s a hI hP).mp ha, (ih (hstep s a hI) ha).mp has⟩
    · rintro ⟨hg, has⟩
      have ha := (hexact s a hI hP).mpr hg
      exact ⟨ha, (ih (hstep s a hI) ha).mpr has⟩

/-- The invariant may speak of the actions that are still to come. -/
theorem trace_iff_along_remaining {J : List α → σ → Prop}
    (hstep : ∀ s a as, J (a :: as) s → J as (step s a))
    (hexact : ∀ s a as, J (a :: as) s → ((∀ e ∈ emits s a, Q e) ↔ G s a)) {s : σ}
    {as : List α} (hJ : J as s) :
    (∀ e ∈ trace step emits s as, Q e) ↔ Along step G s as := by
  induction as generalizing s with
  | nil => simp [trace, Along]
  | cons a as ih =>
    simp only [trace, Along, List.forall_mem_append, hexact s a as hJ, ih (hstep s a as hJ)]

theorem trace_iff_along (hstep : ∀ s a, I s → I (step s a))
    (hexact : ∀ s a, I s → ((∀ e ∈ emits s a, Q e) ↔ G s a)) {s : σ} (hI : I s)
    {as : List α} : (∀ e ∈ trace step emits s as, Q e) ↔ Along step G s as :=
  trace_iff_along_remaining (J := fun _ => I) (fun s a _ => hstep s a)
    (fun s a _ => hexact s a) hI

/-- What the states of a run have in common may decide the emissions. -/
theorem trace_eq_flatMap {emitted : α → List ε} (hstep : ∀ s a, I s → I (step s a))
    (hemit : ∀ s a, I s → emits s a = emitted a) {s : σ} (hs : I s) (as : List α) :
    trace step emits s as = as.flatMap emitted := by
  induction as generalizing s with
  | nil => rfl
  | cons a as ih => rw [trace, List.flatMap_cons, hemit s a hs, ih (hstep s a hs)]

section Emissions

variable {K : ε → σ → Prop} {R : ε → ε → Prop}

/-- What an emission says about the state it was made in still holds at the end. -/
theorem trace_lasting (hstep : ∀ s a, I s → G s a → I (step s a))
    (hlasts : ∀ e s a, I s → G s a → K e s → K e (step s a))
    (hemit : ∀ s a, I s → G s a → ∀ e ∈ emits s a, K e (step s a)) {s : σ} (hs : I s)
    {as : List α} (h : Along step G s as) :
    ∀ e ∈ trace step emits s as, K e (run step s as) := by
  induction as generalizing s with
  | nil => intro e he; cases he
  | cons a as ih =>
    intro e he
    rcases List.mem_append.mp he with he | he
    · have hboth := run_of_along (I := fun t => I t ∧ K e t)
        (fun t b ht hb => ⟨hstep t b ht.1 hb, hlasts e t b ht.1 hb ht.2⟩)
        ⟨hstep s a hs h.1, hemit s a hs h.1 e he⟩ h.2
      exact hboth.2
    · exact ih (hstep s a hs h.1) h.2 e he

/-- An emission decides what may be emitted later. -/
theorem trace_pairwise (hstep : ∀ s a, I s → G s a → I (step s a))
    (hlasts : ∀ e s a, I s → G s a → K e s → K e (step s a))
    (hemit : ∀ s a, I s → G s a → ∀ e ∈ emits s a, K e (step s a))
    (hlater : ∀ e s a, I s → K e s → ∀ e' ∈ emits s a, R e e')
    (hself : ∀ s a, (emits s a).Pairwise R) {s : σ} (hs : I s) {as : List α}
    (h : Along step G s as) : (trace step emits s as).Pairwise R := by
  have hahead : ∀ (bs : List α) (t : σ) (e : ε), I t → Along step G t bs → K e t →
      ∀ e' ∈ trace step emits t bs, R e e' := by
    intro bs
    induction bs with
    | nil => intro t e _ _ _ e' he'; cases he'
    | cons b bs ih =>
      intro t e ht hb hk e' he'
      rcases List.mem_append.mp he' with he' | he'
      · exact hlater e t b ht hk e' he'
      · exact ih _ e (hstep t b ht hb.1) hb.2 (hlasts e t b ht hb.1 hk) e' he'
  induction as generalizing s with
  | nil => exact List.Pairwise.nil
  | cons a as ih =>
    refine List.pairwise_append.mpr ⟨hself s a, ih (hstep s a hs h.1) h.2, ?_⟩
    intro e he e' he'
    exact hahead as _ e (hstep s a hs h.1) h.2 (hemit s a hs h.1 e he) e' he'

end Emissions

end Invariants

/-! ## The last of the first actions that satisfies a property -/

/-- `a` stands at the last of the first `n` positions that satisfies `P`. -/
def LastOf (P : ℕ → α → Prop) (as : List α) (n : ℕ) (a : α) : Prop :=
  ∃ i, i < n ∧ as[i]? = some a ∧ P i a ∧ ∀ j b, i < j → j < n → as[j]? = some b → ¬ P j b

section Last

variable {P : ℕ → α → Prop} {as : List α} {n : ℕ} {a x : α}

theorem not_lastOf_zero : ¬ LastOf P as 0 a := by
  rintro ⟨i, hi, _⟩
  exact absurd hi (Nat.not_lt_zero i)

theorem lastOf_succ_of_pos (hx : as[n]? = some x) (hP : P n x) :
    LastOf P as (n + 1) a ↔ a = x := by
  constructor
  · rintro ⟨i, hi, ha, _, hlast⟩
    rcases Nat.lt_succ_iff_lt_or_eq.mp hi with hi | rfl
    · exact absurd hP (hlast n x hi (Nat.lt_succ_self n) hx)
    · exact Option.some.inj (ha.symm.trans hx)
  · rintro rfl
    refine ⟨n, Nat.lt_succ_self n, hx, hP, ?_⟩
    intro j b hj hj'
    omega

theorem lastOf_succ_of_neg (hx : as[n]? = some x) (hP : ¬ P n x) :
    LastOf P as (n + 1) a ↔ LastOf P as n a := by
  constructor
  · rintro ⟨i, hi, ha, hPa, hlast⟩
    rcases Nat.lt_succ_iff_lt_or_eq.mp hi with hi | rfl
    · exact ⟨i, hi, ha, hPa, fun j b hj hj' => hlast j b hj (Nat.lt_succ_of_lt hj')⟩
    · obtain rfl := Option.some.inj (ha.symm.trans hx)
      exact absurd hPa hP
  · rintro ⟨i, hi, ha, hPa, hlast⟩
    refine ⟨i, Nat.lt_succ_of_lt hi, ha, hPa, ?_⟩
    intro j b hj hj' hb
    rcases Nat.lt_succ_iff_lt_or_eq.mp hj' with hj' | rfl
    · exact hlast j b hj hj' hb
    · obtain rfl := Option.some.inj (hb.symm.trans hx)
      exact hP

theorem LastOf.unique {b : α} (ha : LastOf P as n a) (hb : LastOf P as n b) : a = b := by
  obtain ⟨i, hi, hia, hPa, hlast⟩ := ha
  obtain ⟨j, hj, hjb, hPb, hlast'⟩ := hb
  rcases Nat.lt_trichotomy i j with hij | rfl | hij
  · exact absurd hPb (hlast j b hij hj hjb)
  · exact Option.some.inj (hia.symm.trans hjb)
  · exact absurd hPa (hlast' i a hij hi hia)

end Last

end TransitionRuns
