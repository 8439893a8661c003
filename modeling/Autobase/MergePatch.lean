import Autobase.JsonText
import Autobase.ObjectLiterals

/-! # Patches of a mapping

A patch names members of a mapping. A member with null is taken out, a mapping is merged into the
one that stands there, and any other value takes the place of what was there. -/
namespace MergePatch

open JsonText ObjectLiterals

abbrev Members := List (String × Json)

def store (k : String) : Option Json → Members → Members
  | none, m => m.filter fun a => decide (a.1 ≠ k)
  | some v, m => assign k v m

/-- The members of a mapping; another value has none. -/
def mapping : Option Json → Members
  | some (.obj m) => m
  | _ => []

mutual
def patchValue (old : Option Json) : Json → Option Json
  | .null => none
  | .obj patch => some (.obj (patchMembers (mapping old) patch))
  | v => some v

def patchMembers (m : Members) : Members → Members
  | [] => m
  | (k, v) :: patch => patchMembers (store k (patchValue (m.lookup k) v) m) patch
end

variable {k l : String} {v : Json} {m patch : Members}

theorem lookup_store_self (k : String) (v : Option Json) (m : Members) :
    (store k v m).lookup k = v := by
  cases v with
  | none =>
    apply lookup_of_notMem
    intro h
    obtain ⟨a, ha, hk⟩ := List.mem_map.mp h
    have hne := of_decide_eq_true (List.mem_filter.mp ha).2
    exact hne hk
  | some v => rw [store, lookup_assign, if_pos rfl]

theorem lookup_store_other (h : l ≠ k) (v : Option Json) (m : Members) :
    (store k v m).lookup l = m.lookup l := by
  cases v with
  | none =>
    rw [store]
    induction m with
    | nil => rfl
    | cons a m ih =>
      by_cases ha : a.1 = k
      · rw [List.filter_cons_of_neg (by simpa using ha), ih, lookup_cons_eq,
          if_neg (fun hl => h (hl.trans ha))]
      · rw [List.filter_cons_of_pos (by simpa using ha), lookup_cons_eq, lookup_cons_eq, ih]
  | some v => rw [store, lookup_assign, if_neg h]

/-- A member the patch does not name stays. -/
theorem lookup_patchMembers_other (h : l ∉ keys patch) :
    (patchMembers m patch).lookup l = m.lookup l := by
  induction patch generalizing m with
  | nil => rfl
  | cons a patch ih =>
    obtain ⟨k, v⟩ := a
    obtain ⟨hk, hrest⟩ := not_or.mp (mt List.mem_cons.mpr h)
    rw [patchMembers, ih hrest, lookup_store_other hk]

theorem patchMembers_single (m : Members) (k : String) (v : Json) :
    patchMembers m [(k, v)] = store k (patchValue (m.lookup k) v) m := by
  rw [patchMembers, patchMembers]

theorem mapping_patchValue_obj (old : Option Json) (patch : Members) :
    mapping (patchValue old (.obj patch)) = patchMembers (mapping old) patch := by
  rw [patchValue]
  rfl

/-! ## Several members -/

/-- The members are stored or taken out in turn. -/
def storeAll (edits : List (String × Option Json)) (m : Members) : Members :=
  edits.foldl (fun m e => store e.1 e.2 m) m

variable {edits : List (String × Option Json)}

theorem lookup_storeAll_other (h : l ∉ keys edits) (m : Members) :
    (storeAll edits m).lookup l = m.lookup l := by
  induction edits generalizing m with
  | nil => rfl
  | cons e edits ih =>
    obtain ⟨hl, hrest⟩ := not_or.mp (mt List.mem_cons.mpr h)
    rw [storeAll, List.foldl_cons, ← storeAll, ih hrest, lookup_store_other hl]

theorem lookup_storeAll {w : Option Json} (hnodup : (keys edits).Nodup) (h : (l, w) ∈ edits)
    (m : Members) : (storeAll edits m).lookup l = w := by
  induction edits generalizing m with
  | nil => cases h
  | cons e edits ih =>
    obtain ⟨hnotMem, hrest⟩ := List.nodup_cons.mp hnodup
    rw [storeAll, List.foldl_cons, ← storeAll]
    rcases List.mem_cons.mp h with rfl | h
    · rw [lookup_storeAll_other hnotMem, lookup_store_self]
    · exact ih hrest h _

end MergePatch
