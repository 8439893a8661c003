import Autobase.PagedReads
import Mathlib.Data.List.Nodup
import Mathlib.Data.List.Perm.Basic

/-! # Rows grouped under keys

A map from keys to lists is built by appending the value of each row under the key of the row.
The rows are found again under their keys in their order, and the groups together are the rows. -/
namespace GroupedRows

variable {α β κ : Type*} [DecidableEq κ]

/-- The assignment `m[k] = append(m[k], x)`. -/
def push (k : κ) (x : β) : List (κ × List β) → List (κ × List β)
  | [] => [(k, [x])]
  | (l, xs) :: m => if l = k then (l, xs ++ [x]) :: m else (l, xs) :: push k x m

/-- An absent key has the empty list. -/
def find (k : κ) (m : List (κ × List β)) : List β := (m.lookup k).getD []

def keys (m : List (κ × List β)) : List κ := m.map Prod.fst

def grouped (key : α → κ) (value : α → β) (rows : List α) : List (κ × List β) :=
  rows.foldl (fun m r => push (key r) (value r) m) []

section Push

variable {k l : κ} {x : β} {m : List (κ × List β)}

theorem find_push : find l (push k x m) = if l = k then find l m ++ [x] else find l m := by
  induction m with
  | nil =>
    by_cases h : l = k
    · simp [push, find, h]
    · simp [push, find, List.lookup_cons, beq_false_of_ne h, h]
  | cons p m ih =>
    obtain ⟨j, xs⟩ := p
    simp only [find] at ih
    by_cases hj : j = k
    · subst hj
      by_cases h : l = j
      · simp [push, find, h]
      · simp [push, find, List.lookup_cons, beq_false_of_ne h, h]
    · simp only [push, if_neg hj, find, List.lookup_cons]
      by_cases h : l = j
      · subst h
        simp [hj]
      · simp only [beq_false_of_ne h]
        exact ih

theorem mem_keys_push : l ∈ keys (push k x m) ↔ l ∈ keys m ∨ l = k := by
  induction m with
  | nil => simp [push, keys]
  | cons p m ih =>
    obtain ⟨j, xs⟩ := p
    simp only [keys] at ih
    by_cases hj : j = k
    · simp only [push, if_pos hj, keys, List.map_cons, List.mem_cons]
      constructor
      · exact Or.inl
      · rintro (h | rfl)
        · exact h
        · exact Or.inl hj.symm
    · simp only [push, if_neg hj, keys, List.map_cons, List.mem_cons, ih, or_assoc]

theorem nodup_keys_push (h : (keys m).Nodup) : (keys (push k x m)).Nodup := by
  induction m with
  | nil => simp [push, keys]
  | cons p m ih =>
    obtain ⟨j, xs⟩ := p
    by_cases hj : j = k
    · rw [push, if_pos hj]
      exact h
    · obtain ⟨hmem, hrest⟩ := List.nodup_cons.mp h
      rw [push, if_neg hj]
      refine List.nodup_cons.mpr ⟨?_, ih hrest⟩
      intro hpush
      rcases mem_keys_push.mp hpush with hpush | hpush
      · exact hmem hpush
      · exact hj hpush

end Push

variable (key : α → κ) (value : α → β) (rows : List α)

/-- Under a key stand the values of its rows, in the order of the rows. -/
theorem find_grouped (k : κ) : find k (grouped key value rows) =
    (rows.filter fun r => decide (key r = k)).map value := by
  have hfold : ∀ m, find k (rows.foldl (fun m r => push (key r) (value r) m) m) =
      find k m ++ (rows.filter fun r => decide (key r = k)).map value := by
    induction rows with
    | nil => intro m; simp
    | cons r rows ih =>
      intro m
      rw [List.foldl_cons, ih, find_push]
      by_cases h : key r = k
      · simp [h]
      · simp [h, Ne.symm h]
  exact hfold []

theorem mem_keys_grouped {k : κ} : k ∈ keys (grouped key value rows) ↔ ∃ r ∈ rows, key r = k := by
  have hfold : ∀ m, k ∈ keys (rows.foldl (fun m r => push (key r) (value r) m) m) ↔
      k ∈ keys m ∨ ∃ r ∈ rows, key r = k := by
    induction rows with
    | nil => intro m; simp
    | cons r rows ih =>
      intro m
      rw [List.foldl_cons, ih, mem_keys_push, List.exists_mem_cons_iff, or_assoc, eq_comm (a := k)]
  rw [grouped, hfold]
  simp [keys]

theorem nodup_keys_grouped : (keys (grouped key value rows)).Nodup := by
  have hfold : ∀ m : List (κ × List β), (keys m).Nodup →
      (keys (rows.foldl (fun m r => push (key r) (value r) m) m)).Nodup := by
    induction rows with
    | nil => exact fun m hm => hm
    | cons r rows ih => exact fun m hm => ih _ (nodup_keys_push hm)
  exact hfold [] List.nodup_nil

variable {key rows}

/-- The groups of distinct keys that cover the rows are the rows again. -/
theorem flatMap_filter_perm {ks : List κ} (hks : ks.Nodup) (h : ∀ r ∈ rows, key r ∈ ks) :
    (ks.flatMap fun k => rows.filter fun r => decide (key r = k)).Perm rows := by
  induction ks generalizing rows with
  | nil =>
    cases rows with
    | nil => exact List.Perm.refl []
    | cons r rows => exact absurd (h r List.mem_cons_self) List.not_mem_nil
  | cons k ks ih =>
    obtain ⟨hk, hks⟩ := List.nodup_cons.mp hks
    have hrest : ∀ r ∈ rows.filter fun r => !decide (key r = k), key r ∈ ks := by
      intro r hr
      obtain ⟨hr, hne⟩ := List.mem_filter.mp hr
      rcases List.mem_cons.mp (h r hr) with heq | hmem
      · simp [heq] at hne
      · exact hmem
    have hothers : (ks.flatMap fun l => rows.filter fun r => decide (key r = l)) =
        ks.flatMap fun l => (rows.filter fun r => !decide (key r = k)).filter
          fun r => decide (key r = l) := by
      apply List.flatMap_congr
      intro l hl
      rw [List.filter_filter]
      apply List.filter_congr
      intro r _
      by_cases hrl : key r = l
      · have hne : l ≠ k := fun hlk => hk (hlk ▸ hl)
        simp [hrl, hne]
      · simp [hrl]
    rw [List.flatMap_cons, hothers]
    exact ((ih hks hrest).append_left _).trans (List.filter_append_perm _ rows)

end GroupedRows
