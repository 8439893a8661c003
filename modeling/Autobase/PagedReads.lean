import Mathlib.Data.List.Sort
import Mathlib.Data.Set.Basic

/-! # Reading an ordered table page by page

The rows are ordered by a key and read with a limit and an offset. Where a row stands is the
number of rows with a smaller key, so what a page holds, and what a change of the table does to
the pages that are still to be read, is a matter of counting. -/
namespace PagedReads

variable {α β : Type*}

/-- The rows from an offset on, at most `limit` of them. -/
def page (limit offset : ℕ) (rows : List α) : List α := (rows.drop offset).take limit

theorem page_eq_nil {limit offset : ℕ} (hlimit : 0 < limit) {rows : List α} :
    page limit offset rows = [] ↔ rows.length ≤ offset := by
  rw [page, List.take_eq_nil_iff, List.drop_eq_nil_iff]
  omega

section Ordered

variable [LinearOrder β] {key : α → β} {rows : List α}

def orderBy (key : α → β) (rows : List α) : List α := rows.insertionSort fun a b => key a ≤ key b

/-- The number of rows that stand before a key. -/
def rank (key : α → β) (rows : List α) (k : β) : ℕ := rows.countP fun r => decide (key r < k)

theorem rank_map (key : α → β) (rows : List α) (k : β) :
    rank id (rows.map key) k = rank key rows k := by
  rw [rank, List.countP_map]
  rfl

theorem orderBy_perm (key : α → β) (rows : List α) : (orderBy key rows).Perm rows :=
  List.perm_insertionSort _ rows

@[simp] theorem mem_orderBy {r : α} : r ∈ orderBy key rows ↔ r ∈ rows :=
  (orderBy_perm key rows).mem_iff

@[simp] theorem length_orderBy : (orderBy key rows).length = rows.length :=
  (orderBy_perm key rows).length_eq

theorem rank_orderBy (key : α → β) (rows : List α) (k : β) :
    rank key (orderBy key rows) k = rank key rows k :=
  (orderBy_perm key rows).countP_eq _

theorem orderBy_sorted (h : (rows.map key).Nodup) :
    (orderBy key rows).Pairwise fun a b => key a < key b := by
  have htotal : Std.Total fun a b : α => key a ≤ key b := ⟨fun a b => le_total _ _⟩
  have htrans : IsTrans α fun a b => key a ≤ key b := ⟨fun a b c => le_trans⟩
  have hle := List.pairwise_insertionSort (fun a b : α => key a ≤ key b) rows
  have hne : (orderBy key rows).Pairwise fun a b => key a ≠ key b := by
    have hnodup := ((orderBy_perm key rows).map key).nodup_iff.mpr h
    exact List.pairwise_map.mp hnodup
  exact hle.imp₂ (fun a b hab hab' => lt_of_le_of_ne hab hab') hne

/-- In an ordered list the position of a row is its rank. -/
theorem rank_getElem {rows : List α} (h : rows.Pairwise fun a b => key a < key b) {n : ℕ} {r : α}
    (hr : rows[n]? = some r) : rank key rows (key r) = n := by
  induction rows generalizing n with
  | nil => cases hr
  | cons a rows ih =>
    obtain ⟨hhead, htail⟩ := List.pairwise_cons.mp h
    cases n with
    | zero =>
      obtain rfl : a = r := by simpa using hr
      rw [rank, List.countP_eq_zero]
      intro b hb
      rcases List.mem_cons.mp hb with rfl | hb
      · simp
      · simpa using (hhead b hb).le
    | succ n =>
      have hr' : rows[n]? = some r := by simpa using hr
      have hlt : key a < key r := hhead r (List.mem_of_getElem? hr')
      rw [rank, List.countP_cons_of_pos (by simpa using hlt)]
      exact congrArg (· + 1) (ih htail hr')

theorem mem_page {limit offset : ℕ} (h : (rows.map key).Nodup) {r : α} :
    r ∈ page limit offset (orderBy key rows) ↔
      r ∈ rows ∧ offset ≤ rank key rows (key r) ∧ rank key rows (key r) < offset + limit := by
  have hrank : ∀ {n : ℕ}, (orderBy key rows)[n]? = some r → rank key rows (key r) = n := by
    intro n hn
    rw [← rank_orderBy]
    exact rank_getElem (orderBy_sorted h) hn
  constructor
  · intro hr
    obtain ⟨n, hn⟩ := List.mem_iff_getElem?.mp hr
    rw [page, List.getElem?_take] at hn
    split at hn
    · rename_i hlt
      rw [List.getElem?_drop] at hn
      have hn' := hrank hn
      exact ⟨mem_orderBy.mp (List.mem_of_getElem? hn), by omega, by omega⟩
    · cases hn
  · rintro ⟨hr, hle, hlt⟩
    obtain ⟨n, hn⟩ := List.mem_iff_getElem?.mp ((orderBy_perm key rows).mem_iff.mpr hr)
    have hn' := hrank hn
    apply List.mem_iff_getElem?.mpr
    refine ⟨n - offset, ?_⟩
    rw [page, List.getElem?_take_of_lt (by omega), List.getElem?_drop,
      show offset + (n - offset) = n by omega, hn]

theorem rank_lt_length (key : α → β) {r : α} (hr : r ∈ rows) :
    rank key rows (key r) < rows.length := by
  have hle : rank key rows (key r) ≤ rows.length := List.countP_le_length
  rcases Nat.lt_or_eq_of_le hle with hlt | heq
  · exact hlt
  · exact absurd (of_decide_eq_true (List.countP_eq_length.mp heq r hr)) (lt_irrefl _)

end Ordered

/-! ## A scan of a table that changes -/

section Scan

variable [LinearOrder β] {old handled : Set β} {keys keys' : List β} {offset : ℕ}

/-- Of the keys that are looked for, those that stand before the offset have been handled. -/
def Scanned (old handled : Set β) (keys : List β) (offset : ℕ) : Prop :=
  ∀ k ∈ old, k ∈ keys → rank id keys k < offset → k ∈ handled

theorem scanned_zero : Scanned old handled keys 0 := fun _ _ _ h => absurd h (Nat.not_lt_zero _)

/-- A page is read and handled. -/
theorem Scanned.read (h : Scanned old handled keys offset) {limit : ℕ} {handled' : Set β}
    (hkeep : handled ⊆ handled')
    (hpage : ∀ k ∈ keys, offset ≤ rank id keys k → rank id keys k < offset + limit → k ∈ handled') :
    Scanned old handled' keys (offset + limit) := by
  intro k hold hk hlt
  rcases Nat.lt_or_ge (rank id keys k) offset with hbefore | hbehind
  · exact hkeep (h k hold hk hbefore)
  · exact hpage k hk hbehind hlt

/-- A change is harmless when it brings no key that is looked for before the offset. -/
theorem Scanned.change (h : Scanned old handled keys offset)
    (hkeys : ∀ k ∈ old, k ∈ keys' →
      k ∈ keys ∧ (rank id keys' k < offset → rank id keys k < offset)) :
    Scanned old handled keys' offset := by
  intro k hold hk hlt
  obtain ⟨hk', hback⟩ := hkeys k hold hk
  exact h k hold hk' (hback hlt)

/-- A key that appears moves others away from the start only. -/
theorem Scanned.insert (h : Scanned old handled keys offset) (hsub : keys.Sublist keys')
    (hnew : ∀ k ∈ keys', k ∈ keys ∨ k ∉ old) : Scanned old handled keys' offset := by
  apply h.change
  intro k hold hk
  refine ⟨(hnew k hk).resolve_right (not_not_intro hold), ?_⟩
  exact lt_of_le_of_lt hsub.countP_le

/-- How far a deletion moves a key. -/
theorem rank_filter_ne (hnodup : keys.Nodup) {x : β} (hx : x ∈ keys) (k : β) :
    rank id (keys.filter fun j => decide (j ≠ x)) k + (if x < k then 1 else 0) =
      rank id keys k := by
  induction keys with
  | nil => cases hx
  | cons j keys ih =>
    obtain ⟨hj, hnodup⟩ := List.nodup_cons.mp hnodup
    by_cases hjx : j = x
    · subst hjx
      have hself : (keys.filter fun i => decide (i ≠ j)) = keys := by
        rw [List.filter_eq_self]
        intro i hi
        exact decide_eq_true fun he => hj (he ▸ hi)
      rw [List.filter_cons_of_neg (by simp), hself]
      simp [rank, List.countP_cons]
    · have hx' : x ∈ keys := (List.mem_cons.mp hx).resolve_left fun he => hjx he.symm
      have ih := ih hnodup hx'
      simp only [rank] at ih ⊢
      rw [List.filter_cons_of_pos (by simpa using hjx), List.countP_cons, List.countP_cons]
      omega

theorem rank_lt_rank (hnodup : keys.Nodup) {x k : β} (hx : x ∈ keys) (hxk : x < k) :
    rank id keys x < rank id keys k := by
  have hself := rank_filter_ne hnodup hx x
  have hmoved := rank_filter_ne hnodup hx k
  have hmono : rank id (keys.filter fun j => decide (j ≠ x)) x ≤
      rank id (keys.filter fun j => decide (j ≠ x)) k := by
    apply List.countP_mono_left
    intro j _ hj
    exact decide_eq_true (lt_trans (of_decide_eq_true hj) hxk)
  rw [if_neg (lt_irrefl x)] at hself
  rw [if_pos hxk] at hmoved
  omega

/-- A deletion before the offset moves the first unread row among the read ones. It is
harmless when nothing that is looked for stands there. -/
theorem Scanned.delete (h : Scanned old handled keys offset) (hnodup : keys.Nodup) {x : β}
    (hsafe : x ∈ keys → rank id keys x < offset → ∀ k ∈ old, k ∈ keys → rank id keys k < offset) :
    Scanned old handled (keys.filter fun j => decide (j ≠ x)) offset := by
  apply h.change
  intro k hold hk
  obtain ⟨hk, hne⟩ := List.mem_filter.mp hk
  refine ⟨hk, fun hlt => ?_⟩
  by_cases hx : x ∈ keys
  · by_cases hbefore : rank id keys x < offset
    · exact hsafe hx hbefore k hold hk
    · have hmoved := rank_filter_ne hnodup hx k
      split at hmoved
      · rename_i hxk
        have hstrict := rank_lt_rank hnodup hx hxk
        omega
      · omega
  · rw [List.filter_eq_self.mpr] at hlt
    · exact hlt
    · intro j hj
      exact decide_eq_true fun he => hx (he ▸ hj)

end Scan

end PagedReads
