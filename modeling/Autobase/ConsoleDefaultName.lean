import Autobase.ConsoleSchema
import Mathlib.Tactic.IntervalCases

/-! # The default cluster name

`get_cluster_name` counts up from 1 and returns the first formatted number that no cluster
has as its name. The format has room for two digits. -/
namespace ConsoleDefaultName

open ConsoleSchema

/-! ## Counting up -/

section Search

variable {α : Type*} {candidate : ℕ → α} {taken : α → Bool}

/-- The first candidate that is not taken among `fuel` many. -/
def search (candidate : ℕ → α) (taken : α → Bool) : ℕ → ℕ → Option α
  | 0, _ => none
  | fuel + 1, counter =>
    if taken (candidate counter) then search candidate taken fuel (counter + 1)
    else some (candidate counter)

theorem search_eq_none_iff {fuel counter : ℕ} :
    search candidate taken fuel counter = none ↔
      ∀ i < fuel, taken (candidate (counter + i)) = true := by
  induction fuel generalizing counter with
  | zero => simp [search]
  | succ fuel ih =>
    by_cases h : taken (candidate counter) = true
    · simp only [search, if_pos h]
      rw [ih, Nat.forall_lt_succ_left]
      simp only [Nat.add_zero, h, true_and, Nat.add_assoc, Nat.add_comm 1]
    · have h0 : ¬ ∀ i < fuel + 1, taken (candidate (counter + i)) = true :=
        fun hall => h (hall 0 (Nat.succ_pos fuel))
      rw [search, if_neg h]
      exact iff_of_false (Option.some_ne_none _) h0

/-- A candidate that is found is free, and every earlier one is taken. -/
theorem search_eq_some {fuel counter : ℕ} {r : α}
    (h : search candidate taken fuel counter = some r) :
    taken r = false ∧ ∃ i < fuel, r = candidate (counter + i) ∧
      ∀ j < i, taken (candidate (counter + j)) = true := by
  induction fuel generalizing counter with
  | zero => simp [search] at h
  | succ fuel ih =>
    by_cases ht : taken (candidate counter) = true
    · simp only [search, if_pos ht] at h
      obtain ⟨hr, i, hi, rfl, hbefore⟩ := ih h
      refine ⟨hr, i + 1, Nat.succ_lt_succ hi, ?_, ?_⟩
      · congr 1
        omega
      · intro j hj
        cases j with
        | zero => exact ht
        | succ j =>
          have := hbefore j (Nat.lt_of_succ_lt_succ hj)
          rwa [Nat.add_assoc, Nat.add_comm 1 j] at this
    · simp only [search, if_neg ht, Option.some.injEq] at h
      subst h
      exact ⟨by simpa using ht, 0, Nat.succ_pos fuel, rfl, fun j hj => absurd hj (Nat.not_lt_zero j)⟩

/-- A free candidate within reach is found, or an earlier one is. -/
theorem search_of_free {fuel counter n : ℕ} (hn : n < fuel)
    (hfree : taken (candidate (counter + n)) = false) :
    ∃ i ≤ n, search candidate taken fuel counter = some (candidate (counter + i)) := by
  have hne : search candidate taken fuel counter ≠ none := by
    intro h
    have := search_eq_none_iff.mp h n hn
    rw [hfree] at this
    exact Bool.false_ne_true this
  obtain ⟨r, hr⟩ := Option.ne_none_iff_exists'.mp hne
  obtain ⟨-, i, -, rfl, hbefore⟩ := search_eq_some hr
  refine ⟨i, ?_, hr⟩
  apply Nat.le_of_not_lt
  intro hlt
  have := hbefore n hlt
  rw [hfree] at this
  exact Bool.false_ne_true this

end Search

/-! ## The generator -/

/-- `to_char(counter, 'FM00')`: a number without room in the pattern is printed as `##`. -/
def toChar (counter : ℕ) : String :=
  if counter < 100 then
    String.ofList [Nat.digitChar (counter / 10), Nat.digitChar (counter % 10)]
  else "##"

def newName (counter : ℕ) : String := "postgres-cluster-" ++ toChar counter

/-- The names of all rows, deleted clusters included. -/
def nameTaken (t : Tables) (name : String) : Bool :=
  t.clusters.any fun c => decide (c.clusterName = name)

/-- The counter is a 32-bit integer; counting past the largest one is an error. -/
def counterMax : ℕ := 2147483647

def getClusterName (t : Tables) : Option String := search newName (nameTaken t) counterMax 1

def getDefaultClusterName (d : Db) : Option String := getClusterName d.toTables

/-- The digits of a number. -/
def IsNumber (s : String) : Prop := s ≠ "" ∧ ∀ c ∈ s.toList, c.isDigit = true

/-- The generator returns a name of its form that no cluster has. -/
def ReturnsFresh (d : Db) : Prop :=
  ∃ number, IsNumber number ∧ getDefaultClusterName d = some ("postgres-cluster-" ++ number) ∧
    ∀ c ∈ d.clusters, c.clusterName ≠ "postgres-cluster-" ++ number

theorem newName_eq (counter : ℕ) : newName counter = "postgres-cluster-" ++ toChar counter := rfl

theorem nameTaken_eq_false {t : Tables} {name : String} :
    nameTaken t name = false ↔ ∀ c ∈ t.clusters, c.clusterName ≠ name := by
  simp [nameTaken]

theorem toChar_of_ge {n : ℕ} (h : 100 ≤ n) : toChar n = "##" := if_neg (Nat.not_lt.mpr h)

theorem isDigit_digitChar {n : ℕ} (h : n < 10) : (Nat.digitChar n).isDigit = true := by
  interval_cases n <;> rfl

theorem isNumber_toChar {n : ℕ} (h : n < 100) : IsNumber (toChar n) := by
  have hq : n / 10 < 10 := by omega
  have hr : n % 10 < 10 := Nat.mod_lt n (by decide)
  constructor
  · intro he
    have := congrArg String.toList he
    simp [toChar, h] at this
  · intro c hc
    simp only [toChar, if_pos h, String.toList_ofList, List.mem_cons, List.not_mem_nil,
      or_false] at hc
    rcases hc with rfl | rfl
    · exact isDigit_digitChar hq
    · exact isDigit_digitChar hr

theorem not_isNumber_toChar {n : ℕ} (h : 100 ≤ n) : ¬ IsNumber (toChar n) := by
  intro hnum
  have := hnum.2 '#' (by rw [toChar_of_ge h]; decide)
  revert this
  decide

theorem digitChar_inj {m n : ℕ} (hm : m < 10) (hn : n < 10)
    (h : Nat.digitChar m = Nat.digitChar n) : m = n := by
  interval_cases m <;> interval_cases n <;> first | rfl | exact absurd h (by decide)

/-- Two digits tell the numbers below 100 apart. -/
theorem toChar_inj {m n : ℕ} (hm : m < 100) (hn : n < 100) (h : toChar m = toChar n) : m = n := by
  have := congrArg String.toList h
  simp only [toChar, if_pos hm, if_pos hn, String.toList_ofList, List.cons.injEq, and_true] at this
  have hq := digitChar_inj (by omega) (by omega) this.1
  have hr := digitChar_inj (Nat.mod_lt m (by decide)) (Nat.mod_lt n (by decide)) this.2
  omega

theorem newName_inj {number : String} {n : ℕ}
    (h : newName n = "postgres-cluster-" ++ number) : toChar n = number := by
  have := congrArg String.toList h
  simp only [newName_eq, String.toList_append, List.append_cancel_left_eq] at this
  exact String.toList_inj.mp this

/-- The generator finds a fresh name exactly while one of the names 01 to 99 is free. -/
theorem returnsFresh_iff (d : Db) :
    ReturnsFresh d ↔ ∃ n, 1 ≤ n ∧ n ≤ 99 ∧ ∀ c ∈ d.clusters, c.clusterName ≠ newName n := by
  constructor
  · rintro ⟨number, hnum, hget, hfree⟩
    obtain ⟨-, i, -, hi, -⟩ := search_eq_some hget
    have hchar : toChar (1 + i) = number := newName_inj hi.symm
    refine ⟨1 + i, by omega, ?_, ?_⟩
    · apply Nat.le_of_not_lt
      intro hlt
      exact not_isNumber_toChar hlt (hchar ▸ hnum)
    · simpa only [newName_eq, hchar] using hfree
  · rintro ⟨n, hpos, hle, hfree⟩
    have hn : n - 1 < counterMax := lt_of_le_of_lt (Nat.sub_le_sub_right hle 1) (by decide)
    have hn1 : 1 + (n - 1) = n := by omega
    have htaken : nameTaken d.toTables (newName (1 + (n - 1))) = false := by
      rw [hn1]
      exact nameTaken_eq_false.mpr hfree
    obtain ⟨i, hi, hget⟩ := search_of_free hn htaken
    refine ⟨toChar (1 + i), isNumber_toChar (by omega), hget, ?_⟩
    exact nameTaken_eq_false.mp (search_eq_some hget).1

/-! ## When the names run out -/

/-- The names 01 to 99 belong to clusters. -/
def Exhausted (t : Tables) : Prop := ∀ n, 1 ≤ n → n ≤ 99 → nameTaken t (newName n) = true

/-- The hundredth candidate is no number, and all later ones are the same text. -/
theorem getClusterName_exhausted {t : Tables} (h : Exhausted t) :
    getClusterName t =
      if nameTaken t "postgres-cluster-##" then none else some "postgres-cluster-##" := by
  have hlate : ∀ n, 100 ≤ n → newName n = "postgres-cluster-##" := fun n hn => by
    rw [newName_eq, toChar_of_ge hn]
    rfl
  cases hget : getClusterName t with
  | none =>
    have := search_eq_none_iff.mp hget 99 (by decide)
    rw [hlate _ (by decide)] at this
    rw [if_pos this]
  | some name =>
    obtain ⟨hfree, i, -, rfl, -⟩ := search_eq_some hget
    have hi : 100 ≤ 1 + i := by
      apply Nat.le_of_not_lt
      intro hlt
      have := h (1 + i) (by omega) (by omega)
      rw [hfree] at this
      exact Bool.false_ne_true this
    rw [hlate _ hi] at hfree ⊢
    rw [hfree]
    rfl

/-- A cluster that took its default name as the `n`-th. -/
def defaultCluster (n : ℕ) : Cluster := { deployRequest with name := newName n }.row n 0

def filledTables : Tables :=
  { migrated.toTables with
    clusters := (List.range' 1 99).map defaultCluster
    nextClusterID := 100 }

theorem filledTables_ok : Constraints filledTables := by
  apply (constraints_iff filledTables).mpr
  have hnames : (filledTables.clusters.map Cluster.clusterName).Nodup := by
    rw [filledTables, List.map_map]
    apply List.Nodup.map_on ?_ List.nodup_range'
    intro a ha b hb hab
    rw [List.mem_range'_1] at ha hb
    exact toChar_inj ha.2 hb.2 (newName_inj hab)
  have hids : filledTables.clusters.map Cluster.clusterID = (List.range' 1 99).map Int.ofNat := by
    simp only [filledTables, List.map_map]
    rfl
  have hnodup : (filledTables.clusters.map Cluster.clusterID).Nodup := by
    rw [hids]
    exact List.Nodup.map Int.ofNat_injective List.nodup_range'
  refine ⟨by decide, ⟨hnodup, hnames, ?_, ?_, ?_, ?_⟩, by decide, by decide⟩
  all_goals
    intro c hc
    obtain ⟨n, hn, rfl⟩ := List.mem_map.mp hc
  · have := (List.mem_range'_1.mp hn).2
    show (n : ℤ) < 100
    omega
  · show (1 : ℤ) ∈ [1]
    decide
  · show (1 : ℤ) ∈ [1, 2, 3, 4, 5]
    decide
  · intro i hi
    cases hi

/-- Ninety-nine deployments under default names. -/
def filled : Db := ⟨filledTables, filledTables_ok⟩

theorem exhausted_filled : Exhausted filled.toTables := by
  intro n hpos hle
  simp only [nameTaken, List.any_eq_true, decide_eq_true_eq]
  refine ⟨defaultCluster n, ?_, rfl⟩
  exact List.mem_map_of_mem (List.mem_range'_1.mpr ⟨hpos, by omega⟩)

theorem getDefaultClusterName_filled :
    getDefaultClusterName filled = some "postgres-cluster-##" := by
  have hfree : nameTaken filled.toTables "postgres-cluster-##" = false := by
    apply nameTaken_eq_false.mpr
    intro c hc he
    obtain ⟨n, hn, rfl⟩ := List.mem_map.mp hc
    have hchar : toChar n = "##" := newName_inj he
    have hlt : n < 100 := by
      have := (List.mem_range'_1.mp hn).2
      omega
    have hnum := isNumber_toChar hlt
    rw [hchar] at hnum
    exact not_isNumber_toChar (le_refl 100) hnum
  rw [getDefaultClusterName, getClusterName_exhausted exhausted_filled, hfree]
  rfl

/-- The hundredth default name has no number. -/
theorem filled_not_fresh : ¬ ReturnsFresh filled := by
  rintro ⟨number, hnum, hget, -⟩
  rw [getDefaultClusterName_filled] at hget
  have : toChar 100 = number := newName_inj (Option.some.inj hget)
  exact not_isNumber_toChar (le_refl 100) (this ▸ hnum)

end ConsoleDefaultName
