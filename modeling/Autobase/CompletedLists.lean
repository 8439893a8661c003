import Mathlib.Data.List.Nodup
import Mathlib.Data.List.Sublists

/-! # Completing a list by required items

Items that a list does not have are added one after the other: one of them in front, the others at
the end. The list is read through a normal form of its entries, and the items are in normal form;
an item is added where no entry is equal to it, so an entry that only has its normal form makes a
duplicate. -/
namespace CompletedLists

variable {β : Type*} [DecidableEq β]

/-! ## Adding items -/

def add (first : β) (entries : List β) (item : β) : List β :=
  if item ∈ entries then entries
  else if item = first then item :: entries
  else entries ++ [item]

/-- The list with everything in its place. -/
def complete (first : β) (items entries : List β) : List β :=
  (if first ∈ items ∧ first ∉ entries then [first] else []) ++ entries ++
    items.filter fun item => item ≠ first ∧ item ∉ entries

variable {first item x : β} {items entries : List β}

theorem mem_add : x ∈ add first entries item ↔ x ∈ entries ∨ x = item := by
  rw [add]
  split
  · next h =>
    refine (or_iff_left_of_imp ?_).symm
    rintro rfl
    exact h
  · split
    · rw [List.mem_cons, or_comm]
    · rw [List.mem_append, List.mem_singleton]

theorem mem_foldl_add : x ∈ items.foldl (add first) entries ↔ x ∈ entries ∨ x ∈ items := by
  induction items generalizing entries with
  | nil => simp
  | cons item items ih => rw [List.foldl_cons, ih, mem_add, List.mem_cons, or_assoc]

theorem complete_present (h : item ∈ entries) :
    complete first (item :: items) entries = complete first items entries := by
  have hfirst : first ∈ item :: items ∧ first ∉ entries ↔ first ∈ items ∧ first ∉ entries := by
    refine and_congr_left fun hout => ?_
    rw [List.mem_cons, or_iff_right]
    rintro rfl
    exact hout h
  rw [complete, complete, List.filter_cons_of_neg (by simp [h])]
  simp only [hfirst]

theorem complete_first (hitem : first ∉ items) (h : first ∉ entries) :
    complete first (first :: items) entries = complete first items (first :: entries) := by
  have hfilter : items.filter (fun y => decide (y ≠ first ∧ y ∉ first :: entries)) =
      items.filter fun y => decide (y ≠ first ∧ y ∉ entries) := by
    refine List.filter_congr fun y _ => ?_
    simp only [List.mem_cons, decide_eq_decide]
    tauto
  rw [complete, complete, hfilter, if_pos ⟨List.mem_cons_self, h⟩,
    if_neg fun hc => hitem hc.1, List.filter_cons_of_neg (by simp)]
  rfl

theorem complete_last (hitem : item ∉ items) (hne : item ≠ first) (h : item ∉ entries) :
    complete first (item :: items) entries = complete first items (entries ++ [item]) := by
  have hfilter : items.filter (fun y => decide (y ≠ first ∧ y ∉ entries ++ [item])) =
      items.filter fun y => decide (y ≠ first ∧ y ∉ entries) := by
    refine List.filter_congr fun y hy => ?_
    have hy' : y ≠ item := fun he => hitem (he ▸ hy)
    simp only [List.mem_append, List.mem_singleton, hy', or_false]
  have hfirst : first ∈ item :: items ∧ first ∉ entries ↔
      first ∈ items ∧ first ∉ entries ++ [item] := by
    simp [hne.symm]
  rw [complete, complete, hfilter, List.filter_cons_of_pos (by simp [hne, h])]
  simp only [hfirst, List.append_assoc, List.singleton_append]

/-- Adding the items one by one completes the list. -/
theorem foldl_add (h : items.Nodup) : items.foldl (add first) entries =
    complete first items entries := by
  induction items generalizing entries with
  | nil => simp [complete]
  | cons item items ih =>
    obtain ⟨hitem, htail⟩ := List.nodup_cons.mp h
    rw [List.foldl_cons, ih htail, add]
    split
    · next hmem => exact (complete_present hmem).symm
    · next hout =>
      split
      · next heq =>
        subst heq
        exact (complete_first hitem hout).symm
      · next hne => exact (complete_last hitem hne hout).symm

/-! ## Normal forms -/

/-- No entry is blank and none is there twice. -/
def WellFormed (blank : β) (entries : List β) : Prop := blank ∉ entries ∧ entries.Nodup

instance (blank : β) (entries : List β) : Decidable (WellFormed blank entries) :=
  inferInstanceAs (Decidable (_ ∧ _))

variable {blank : β} {trim : β → β}

/-- The normal forms of the completed list. -/
theorem map_complete (hfixed : ∀ x ∈ items, trim x = x) :
    (complete first items entries).map trim =
      (if first ∈ items ∧ first ∉ entries then [first] else []) ++ entries.map trim ++
        items.filter fun item => item ≠ first ∧ item ∉ entries := by
  have hfront : (if first ∈ items ∧ first ∉ entries then [first] else []).map trim =
      if first ∈ items ∧ first ∉ entries then [first] else [] := by
    split
    · next h => rw [List.map_singleton, hfixed first h.1]
    · rfl
  have hback : (items.filter fun item => decide (item ≠ first ∧ item ∉ entries)).map trim =
      items.filter fun item => decide (item ≠ first ∧ item ∉ entries) := by
    rw [List.map_congr_left fun x hx => hfixed x (List.mem_of_mem_filter hx)]
    exact List.map_id' _
  rw [complete, List.map_append, List.map_append, hfront, hback]

theorem sublist_map_complete (hfixed : ∀ x ∈ items, trim x = x) :
    (entries.map trim).Sublist ((complete first items entries).map trim) := by
  rw [map_complete hfixed]
  exact (List.sublist_append_right _ _).trans (List.sublist_append_left _ _)

/-- Nothing is twice in the completed list exactly when it is not in the list, and every item in it
is spelled in normal form. -/
theorem nodup_map_complete (hitems : items.Nodup) (hfixed : ∀ x ∈ items, trim x = x) :
    ((complete first items entries).map trim).Nodup ↔
      (entries.map trim).Nodup ∧ ∀ x ∈ items, x ∈ entries.map trim → x ∈ entries := by
  constructor
  · intro hnodup
    refine ⟨hnodup.sublist (sublist_map_complete hfixed), fun x hx hnormal => ?_⟩
    by_contra hout
    rw [map_complete hfixed] at hnodup
    by_cases hfirst : x = first
    · subst hfirst
      rw [if_pos ⟨hx, hout⟩, List.append_assoc, List.singleton_append] at hnodup
      exact (List.nodup_cons.mp hnodup).1 (List.mem_append_left _ hnormal)
    · refine (List.disjoint_of_nodup_append hnodup) (List.mem_append_right _ hnormal) ?_
      exact List.mem_filter.mpr ⟨hx, by simp [hfirst, hout]⟩
  · rintro ⟨hnodup, hspelled⟩
    rw [map_complete hfixed]
    refine List.Nodup.append (List.Nodup.append ?_ hnodup ?_) (hitems.filter _) ?_
    · split
      · exact List.nodup_singleton _
      · exact List.nodup_nil
    · intro x hx hnormal
      split at hx
      · next h =>
        rw [List.mem_singleton.mp hx] at hnormal
        exact h.2 (hspelled first h.1 hnormal)
      · exact List.not_mem_nil hx
    · intro x hx hback
      obtain ⟨hmem, hcond⟩ := List.mem_filter.mp hback
      obtain ⟨hne, hout⟩ := of_decide_eq_true hcond
      rcases List.mem_append.mp hx with hx | hx
      · split at hx
        · exact hne (List.mem_singleton.mp hx)
        · exact List.not_mem_nil hx
      · exact hout (hspelled x hmem hx)

theorem notMem_map_complete (hfixed : ∀ x ∈ items, trim x = x) (hblank : blank ∉ items) :
    blank ∉ (complete first items entries).map trim ↔ blank ∉ entries.map trim := by
  refine not_congr ⟨fun hmem => ?_, fun hmem => (sublist_map_complete hfixed).subset hmem⟩
  rw [map_complete hfixed, List.mem_append, List.mem_append] at hmem
  rcases hmem with (hmem | hmem) | hmem
  · split at hmem
    · next h => exact absurd (List.mem_singleton.mp hmem ▸ h.1) hblank
    · exact absurd hmem List.not_mem_nil
  · exact hmem
  · exact absurd (List.mem_of_mem_filter hmem) hblank

/-- The first item is in front of the completed list, unless it was in the list behind others. -/
theorem head?_map_complete (hfixed : ∀ x ∈ items, trim x = x)
    (hspelled : ∀ x ∈ items, x ∈ entries.map trim → x ∈ entries) (hfirst : first ∈ items) :
    ((complete first items entries).map trim).head? = some first ↔
      (first ∈ entries.map trim → (entries.map trim).head? = some first) := by
  rw [map_complete hfixed]
  by_cases hmem : first ∈ entries
  · have hnormal : first ∈ entries.map trim :=
      List.mem_map.mpr ⟨first, hmem, hfixed first hfirst⟩
    rw [if_neg fun hc => hc.2 hmem, List.nil_append,
      List.head?_append_of_ne_nil _ (List.ne_nil_of_mem hnormal)]
    exact (imp_iff_right hnormal).symm
  · rw [if_pos ⟨hfirst, hmem⟩]
    exact iff_of_true rfl fun hnormal => absurd (hspelled first hfirst hnormal) hmem

/-- The completed list is well formed, with the first item in front, exactly when the list is well
formed, every item in it is spelled in normal form and the first item, if there, is in front. -/
theorem wellFormed_complete_iff (hitems : items.Nodup) (hfixed : ∀ x ∈ items, trim x = x)
    (hblank : blank ∉ items) :
    (WellFormed blank ((complete first items entries).map trim) ∧
        (first ∈ items → ((complete first items entries).map trim).head? = some first)) ↔
      WellFormed blank (entries.map trim) ∧
        (∀ x ∈ items, x ∈ entries.map trim → x ∈ entries) ∧
        (first ∈ items → first ∈ entries.map trim → (entries.map trim).head? = some first) := by
  rw [WellFormed, WellFormed, notMem_map_complete hfixed hblank, nodup_map_complete hitems hfixed]
  constructor
  · rintro ⟨⟨hnotblank, hnodup, hspelled⟩, hhead⟩
    refine ⟨⟨hnotblank, hnodup⟩, hspelled, fun hfirst => ?_⟩
    exact (head?_map_complete hfixed hspelled hfirst).mp (hhead hfirst)
  · rintro ⟨⟨hnotblank, hnodup⟩, hspelled, hhead⟩
    refine ⟨⟨hnotblank, hnodup, hspelled⟩, fun hfirst => ?_⟩
    exact (head?_map_complete hfixed hspelled hfirst).mpr (hhead hfirst)

end CompletedLists
