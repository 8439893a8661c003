import Mathlib.Data.List.Induction
import Mathlib.Data.List.Nodup

/-! # Object literals

A literal lists its assignments in the order in which they take place; a spread appends the
literal it spreads. A key keeps the place of its first assignment and has the value of its last
one. -/
namespace ObjectLiterals

variable {κ α : Type*} [DecidableEq κ]

def assign (k : κ) (v : α) : List (κ × α) → List (κ × α)
  | [] => [(k, v)]
  | (k', u) :: m => if k' = k then (k', v) :: m else (k', u) :: assign k v m

def object (l : List (κ × α)) : List (κ × α) := l.foldl (fun m a => assign a.1 a.2 m) []

abbrev keys (l : List (κ × α)) : List κ := l.map Prod.fst

/-- The members of an object that are not undefined. -/
def defined (m : List (κ × Option α)) : List (κ × α) := m.filterMap fun a => a.2.map (Prod.mk a.1)

/-- What a writer shows of a literal. -/
def members (l : List (κ × Option α)) : List (κ × α) := defined (object l)

/-! ## Assignments -/

variable {k k' : κ} {v : α} {m l : List (κ × α)}

theorem keys_assign (k : κ) (v : α) (m : List (κ × α)) :
    keys (assign k v m) = if k ∈ keys m then keys m else keys m ++ [k] := by
  induction m with
  | nil => rfl
  | cons a m ih =>
    obtain ⟨k', u⟩ := a
    by_cases h : k' = k
    · subst h
      simp [assign]
    · simp only [keys, assign, if_neg h, List.map_cons, List.mem_cons, Ne.symm h, false_or] at ih ⊢
      rw [ih]
      split <;> rfl

theorem nodup_assign (h : (keys m).Nodup) (k : κ) (v : α) : (keys (assign k v m)).Nodup := by
  rw [keys_assign]
  split
  · exact h
  · next hk => exact List.concat_eq_append ▸ h.concat hk

theorem mem_keys_assign : k' ∈ keys (assign k v m) ↔ k' ∈ keys m ∨ k' = k := by
  rw [keys_assign]
  split
  · next hk => exact ⟨Or.inl, fun h => h.elim id fun he => he ▸ hk⟩
  · rw [List.mem_append, List.mem_singleton]

theorem assign_of_notMem (h : k ∉ keys m) : assign k v m = m ++ [(k, v)] := by
  induction m with
  | nil => rfl
  | cons a m ih =>
    obtain ⟨k', u⟩ := a
    rw [keys, List.map_cons, List.mem_cons, not_or] at h
    rw [assign, if_neg (Ne.symm h.1), ih h.2, List.cons_append]

theorem lookup_cons_eq (k : κ) (a : κ × α) (m : List (κ × α)) :
    (a :: m).lookup k = if k = a.1 then some a.2 else m.lookup k := by
  obtain ⟨k', u⟩ := a
  rw [List.lookup_cons]
  by_cases h : k = k'
  · simp [h]
  · rw [if_neg h, beq_false_of_ne h]

theorem lookup_of_notMem (h : k ∉ keys m) : m.lookup k = none :=
  List.lookup_eq_none_iff.mpr fun _ hp =>
    bne_iff_ne.mpr fun hk => h (hk ▸ List.mem_map_of_mem hp)

theorem lookup_of_mem (hnodup : (keys m).Nodup) (h : (k, v) ∈ m) : m.lookup k = some v := by
  induction m with
  | nil => cases h
  | cons a m ih =>
    obtain ⟨ha, hrest⟩ := List.nodup_cons.mp hnodup
    rw [lookup_cons_eq]
    rcases List.mem_cons.mp h with rfl | h
    · rw [if_pos rfl]
    · have hne : k ≠ a.1 := fun hk => ha (hk ▸ List.mem_map_of_mem h)
      rw [if_neg hne, ih hrest h]

theorem lookup_assign (k k' : κ) (v : α) (m : List (κ × α)) :
    (assign k v m).lookup k' = if k' = k then some v else m.lookup k' := by
  induction m with
  | nil => exact lookup_cons_eq k' (k, v) []
  | cons a m ih =>
    obtain ⟨k₀, u⟩ := a
    rw [assign]
    split
    · next h₀ =>
      subst h₀
      rw [lookup_cons_eq, lookup_cons_eq]
      split <;> rfl
    · next h₀ =>
      rw [lookup_cons_eq, lookup_cons_eq, ih]
      by_cases h : k' = k₀
      · rw [if_pos h, if_pos h, if_neg fun he => h₀ (h.symm.trans he)]
      · rw [if_neg h, if_neg h]

/-! ## Objects -/

theorem object_concat (l : List (κ × α)) (a : κ × α) :
    object (l ++ [a]) = assign a.1 a.2 (object l) := by
  rw [object, List.foldl_concat]
  rfl

theorem nodup_object (l : List (κ × α)) : (keys (object l)).Nodup := by
  induction l using List.reverseRecOn with
  | nil => exact List.nodup_nil
  | append_singleton l a ih =>
    rw [object_concat]
    exact nodup_assign ih a.1 a.2

theorem mem_keys_object : k ∈ keys (object l) ↔ k ∈ keys l := by
  induction l using List.reverseRecOn with
  | nil => rfl
  | append_singleton l a ih =>
    rw [object_concat, mem_keys_assign, ih, keys, keys, List.map_append, List.mem_append,
      List.map_singleton, List.mem_singleton]

theorem mem_of_mem_assign {a : κ × α} (h : a ∈ assign k v m) : a = (k, v) ∨ a ∈ m := by
  induction m with
  | nil => exact Or.inl (List.mem_singleton.mp h)
  | cons b m ih =>
    obtain ⟨k', u⟩ := b
    rw [assign] at h
    split at h
    · next hk =>
      subst hk
      exact (List.mem_cons.mp h).imp_right (List.mem_cons_of_mem _)
    · rcases List.mem_cons.mp h with rfl | h
      · exact Or.inr List.mem_cons_self
      · exact (ih h).imp_right (List.mem_cons_of_mem _)

theorem mem_of_mem_object {a : κ × α} (h : a ∈ object l) : a ∈ l := by
  induction l using List.reverseRecOn with
  | nil => exact h
  | append_singleton l b ih =>
    rw [object_concat] at h
    rcases mem_of_mem_assign h with rfl | h
    · exact List.mem_append_right l List.mem_cons_self
    · exact List.mem_append_left [b] (ih h)

/-- The last assignment of a key counts. -/
theorem lookup_object (k : κ) (l : List (κ × α)) : (object l).lookup k = l.reverse.lookup k := by
  induction l using List.reverseRecOn with
  | nil => rfl
  | append_singleton l a ih =>
    rw [object_concat, lookup_assign, ih, List.reverse_concat, lookup_cons_eq]

theorem object_eq_self (h : (keys l).Nodup) : object l = l := by
  induction l using List.reverseRecOn with
  | nil => rfl
  | append_singleton l a ih =>
    rw [keys, List.map_append, List.nodup_append] at h
    rw [object_concat, ih h.1, assign_of_notMem]
    exact fun hmem => h.2.2 a.1 hmem a.1 (List.mem_singleton_self _) rfl

/-! ## Undefined members -/

theorem lookup_defined {m : List (κ × Option α)} (h : (keys m).Nodup) (k : κ) :
    (defined m).lookup k = (m.lookup k).join := by
  induction m with
  | nil => rfl
  | cons a m ih =>
    obtain ⟨k', o⟩ := a
    obtain ⟨hk', hm⟩ := List.nodup_cons.mp h
    rw [lookup_cons_eq]
    cases o with
    | some u =>
      change ((k', u) :: defined m).lookup k = _
      rw [lookup_cons_eq, ih hm]
      split <;> rfl
    | none =>
      change (defined m).lookup k = _
      rw [ih hm]
      split
      · next he =>
        rw [lookup_of_notMem (he ▸ hk')]
        rfl
      · rfl

theorem mem_of_mem_members {a : κ × α} {l : List (κ × Option α)} (h : a ∈ members l) :
    (a.1, some a.2) ∈ l := by
  obtain ⟨⟨k', o⟩, hb, he⟩ := List.mem_filterMap.mp h
  obtain ⟨v, rfl, rfl⟩ := Option.map_eq_some_iff.mp he
  exact mem_of_mem_object hb

omit [DecidableEq κ] in
theorem defined_append (l m : List (κ × Option α)) :
    defined (l ++ m) = defined l ++ defined m :=
  List.filterMap_append

theorem lookup_members (k : κ) (l : List (κ × Option α)) :
    (members l).lookup k = (l.reverse.lookup k).join := by
  rw [members, lookup_defined (nodup_object l), lookup_object]

theorem members_eq_defined {l : List (κ × Option α)} (h : (keys l).Nodup) :
    members l = defined l := by
  rw [members, object_eq_self h]

end ObjectLiterals
