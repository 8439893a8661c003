import Autobase.PagedReads
import Mathlib.Data.List.Perm.Basic
import Mathlib.Data.List.Pairwise

/-! # Pages of rows that may tie

A comparison orders the rows, and each query is free to arrange the rows that tie. A row stands
among its ties wherever the arrangement puts it, so it turns up on one page only when all of its
ties do. -/
namespace SortedPages

open PagedReads

variable {α β : Type*}

/-! ## Comparisons -/

/-- A total preorder that can be computed. -/
structure Comparison (α : Type*) where
  le : α → α → Bool
  total : ∀ a b, le a b = true ∨ le b a = true
  trans : ∀ a b c, le a b = true → le b c = true → le a c = true

namespace Comparison

variable (r : Comparison α)

theorem refl (a : α) : r.le a a = true := (r.total a a).elim id id

def desc : Comparison α where
  le a b := r.le b a
  total a b := r.total b a
  trans a b c hab hbc := r.trans c b a hbc hab

def on (f : β → α) : Comparison β where
  le a b := r.le (f a) (f b)
  total a b := r.total (f a) (f b)
  trans a b c := r.trans (f a) (f b) (f c)

def ofOrder (α : Type*) [LinearOrder α] : Comparison α where
  le a b := decide (a ≤ b)
  total a b := by simpa only [decide_eq_true_eq] using le_total a b
  trans a b c := by simpa only [decide_eq_true_eq] using le_trans

/-- Everything ties. -/
def always : Comparison α where
  le _ _ := true
  total _ _ := Or.inl rfl
  trans _ _ _ _ _ := rfl

/-- The second comparison decides among the ties of the first. -/
def thenBy (s : Comparison α) : Comparison α where
  le a b := r.le a b && (!r.le b a || s.le a b)
  total a b := by
    have hr := r.total a b
    have hs := s.total a b
    simp only [Bool.and_eq_true, Bool.or_eq_true, Bool.not_eq_true']
    cases hab : r.le a b <;> cases hba : r.le b a <;> simp_all
  trans a b c := by
    simp only [Bool.and_eq_true, Bool.or_eq_true, Bool.not_eq_true']
    rintro ⟨hab, hab'⟩ ⟨hbc, hbc'⟩
    refine ⟨r.trans a b c hab hbc, ?_⟩
    by_cases hca : r.le c a = true
    · have hba := r.trans b c a hbc hca
      have hcb := r.trans c a b hca hab
      rw [hba] at hab'
      rw [hcb] at hbc'
      exact Or.inr (s.trans a b c (by simpa using hab') (by simpa using hbc'))
    · exact Or.inl (by simpa using hca)

theorem thenBy_ties {s : Comparison α} {a b : α} :
    ((r.thenBy s).le a b = true ∧ (r.thenBy s).le b a = true) ↔
      (r.le a b = true ∧ r.le b a = true) ∧ s.le a b = true ∧ s.le b a = true := by
  simp only [thenBy, Bool.and_eq_true, Bool.or_eq_true, Bool.not_eq_true']
  constructor
  · rintro ⟨⟨hab, hab'⟩, hba, hba'⟩
    exact ⟨⟨hab, hba⟩, hab'.resolve_left (by simp [hba]), hba'.resolve_left (by simp [hab])⟩
  · rintro ⟨⟨hab, hba⟩, hs, hs'⟩
    exact ⟨⟨hab, Or.inr hs⟩, hba, Or.inr hs'⟩

end Comparison

/-! ## Arrangements -/

/-- An order in which a query may return the rows. -/
structure Arranged (r : Comparison α) (rows l : List α) : Prop where
  perm : l.Perm rows
  sorted : l.Pairwise fun a b => r.le a b = true

variable (r : Comparison α) {rows l : List α} {x : α}

/-- The rows that stand before a row in every arrangement. -/
def before (rows : List α) (x : α) : ℕ := rows.countP fun y => !r.le x y

/-- The rows that may stand before a row, and the row itself. -/
def upTo (rows : List α) (x : α) : ℕ := rows.countP fun y => r.le y x

variable {r}

theorem Arranged.position (h : Arranged r rows l) {n : ℕ} (hn : l[n]? = some x) :
    before r rows x ≤ n ∧ n < upTo r rows x := by
  obtain ⟨hlt, hx⟩ := List.getElem?_eq_some_iff.mp hn
  have hsplit : l = l.take n ++ x :: l.drop (n + 1) := by
    rw [← hx, ← List.drop_eq_getElem_cons hlt, List.take_append_drop]
  have hlength : (l.take n).length = n := List.length_take_of_le hlt.le
  have hsorted := h.sorted
  rw [hsplit, List.pairwise_append, List.pairwise_cons] at hsorted
  obtain ⟨-, ⟨hafter, -⟩, hbefore⟩ := hsorted
  constructor
  · rw [before, ← h.perm.countP_eq, hsplit, List.countP_append]
    have hrest : (x :: l.drop (n + 1)).countP (fun y => !r.le x y) = 0 := by
      rw [List.countP_eq_zero]
      intro y hy
      rcases List.mem_cons.mp hy with rfl | hy
      · simp [r.refl y]
      · simp [hafter y hy]
    have hcount := List.countP_le_length (p := fun y => !r.le x y) (l := l.take n)
    omega
  · rw [upTo, ← h.perm.countP_eq, hsplit, List.countP_append, List.countP_cons,
      if_pos (r.refl x)]
    have hfirst : (l.take n).countP (fun y => r.le y x) = (l.take n).length := by
      rw [List.countP_eq_length]
      intro y hy
      exact hbefore y hy x List.mem_cons_self
    omega

theorem before_lt_upTo (hx : x ∈ rows) : before r rows x < upTo r rows x := by
  rw [before, upTo]
  have hsub : ∀ y, (!r.le x y) = true → r.le y x = true := by
    intro y hy
    have hxy : r.le x y = false := by simpa using hy
    exact (r.total y x).resolve_right (by simp [hxy])
  induction rows with
  | nil => cases hx
  | cons y rows ih =>
    have hmono := List.countP_mono_left (l := rows) fun y _ => hsub y
    rw [List.countP_cons, List.countP_cons]
    rcases List.mem_cons.mp hx with rfl | hx
    · simp only [r.refl, Bool.not_true, Bool.false_eq_true, if_false, if_true]
      omega
    · have hlt := ih hx
      by_cases hy : (!r.le x y) = true
      · rw [if_pos hy, if_pos (hsub y hy)]
        omega
      · rw [if_neg hy]
        omega

/-- One of the arrangements. -/
def arrangement (r : Comparison α) (rows : List α) : List α :=
  rows.insertionSort fun a b => r.le a b = true

theorem arranged_arrangement (r : Comparison α) (rows : List α) :
    Arranged r rows (arrangement r rows) := by
  have htotal : Std.Total fun a b : α => r.le a b = true := ⟨r.total⟩
  have htrans : IsTrans α fun a b => r.le a b = true := ⟨r.trans⟩
  exact ⟨List.perm_insertionSort _ rows, List.pairwise_insertionSort _ rows⟩

theorem exists_arranged_between {lo hi : List α} (hperm : (lo ++ x :: hi).Perm rows)
    (hlo : ∀ y ∈ lo, r.le y x = true) (hhi : ∀ y ∈ hi, r.le x y = true) :
    ∃ l, Arranged r rows l ∧ l[lo.length]? = some x := by
  have hlo' := arranged_arrangement r lo
  have hhi' := arranged_arrangement r hi
  refine ⟨arrangement r lo ++ x :: arrangement r hi, ⟨?_, ?_⟩, ?_⟩
  · exact (hlo'.perm.append (hhi'.perm.cons x)).trans hperm
  · apply List.pairwise_append.mpr
    refine ⟨hlo'.sorted, List.pairwise_cons.mpr ⟨?_, hhi'.sorted⟩, ?_⟩
    · intro y hy
      exact hhi y (hhi'.perm.mem_iff.mp hy)
    · intro y hy z hz
      have hyx := hlo y (hlo'.perm.mem_iff.mp hy)
      rcases List.mem_cons.mp hz with rfl | hz
      · exact hyx
      · exact r.trans y x z hyx (hhi z (hhi'.perm.mem_iff.mp hz))
  · rw [← hlo'.perm.length_eq]
    simp

/-- Some arrangement puts a row first among its ties. -/
theorem exists_arranged_first (hx : x ∈ rows) :
    ∃ l, Arranged r rows l ∧ l[before r rows x]? = some x := by
  obtain ⟨s, t, hhi⟩ := List.append_of_mem (List.mem_filter.mpr ⟨hx, r.refl x⟩)
  have hmem : ∀ y ∈ s ++ t, r.le x y = true := by
    intro y hy
    have hy : y ∈ rows.filter fun y => r.le x y := by
      rw [hhi]
      simp only [List.mem_append, List.mem_cons] at hy ⊢
      tauto
    exact (List.mem_filter.mp hy).2
  have hperm : (rows.filter (fun y => !r.le x y) ++ x :: (s ++ t)).Perm rows := by
    refine List.Perm.trans ?_ ((List.perm_append_comm).trans
      (List.filter_append_perm (fun y => r.le x y) rows))
    rw [hhi]
    exact List.Perm.append_left _ List.perm_middle.symm
  have hlo : ∀ y ∈ rows.filter fun y => !r.le x y, r.le y x = true := by
    intro y hy
    have hxy : r.le x y = false := by simpa using (List.mem_filter.mp hy).2
    exact (r.total y x).resolve_right (by simp [hxy])
  have harranged := exists_arranged_between hperm hlo hmem
  rwa [← List.countP_eq_length_filter] at harranged

/-- Some arrangement puts it last. -/
theorem exists_arranged_last (hx : x ∈ rows) :
    ∃ l, Arranged r rows l ∧ l[upTo r rows x - 1]? = some x := by
  obtain ⟨s, t, hlo⟩ := List.append_of_mem (List.mem_filter.mpr ⟨hx, r.refl x⟩ :
    x ∈ rows.filter fun y => r.le y x)
  have hmem : ∀ y ∈ s ++ t, r.le y x = true := by
    intro y hy
    have hy : y ∈ rows.filter fun y => r.le y x := by
      rw [hlo]
      simp only [List.mem_append, List.mem_cons] at hy ⊢
      tauto
    exact (List.mem_filter.mp hy).2
  have hperm : ((s ++ t) ++ x :: rows.filter (fun y => !r.le y x)).Perm rows := by
    refine List.Perm.trans ?_ (List.filter_append_perm (fun y => r.le y x) rows)
    rw [hlo]
    refine List.perm_middle.trans ?_
    rw [← List.cons_append]
    exact List.Perm.append_right _ List.perm_middle.symm
  have hhi : ∀ y ∈ rows.filter fun y => !r.le y x, r.le x y = true := by
    intro y hy
    have hyx : r.le y x = false := by simpa using (List.mem_filter.mp hy).2
    exact (r.total x y).resolve_right (by simp [hyx])
  have hlength : (s ++ t).length = upTo r rows x - 1 := by
    rw [upTo, List.countP_eq_length_filter, hlo]
    simp
  rw [← hlength]
  exact exists_arranged_between hperm hmem hhi

/-! ## Pages -/

/-- The pages at the offsets 0, `limit`, … of queries that choose their own arrangements. -/
def pages (limit : ℕ) (choice : ℕ → List α) (n : ℕ) : List α :=
  (List.range n).flatMap fun k => page limit (k * limit) (choice k)

/-- No two rows that tie stand on different pages. -/
def TiesTogether (r : Comparison α) (limit : ℕ) (rows : List α) : Prop :=
  ∀ x ∈ rows, before r rows x / limit = (upTo r rows x - 1) / limit

instance (r : Comparison α) (limit : ℕ) (rows : List α) : Decidable (TiesTogether r limit rows) :=
  inferInstanceAs (Decidable (∀ x ∈ rows, _ = _))

variable {limit : ℕ} {choice : ℕ → List α}

theorem mem_page_getElem {offset : ℕ} : x ∈ page limit offset l ↔
    ∃ n, l[n]? = some x ∧ offset ≤ n ∧ n < offset + limit := by
  rw [page, List.mem_iff_getElem?]
  constructor
  · rintro ⟨n, hn⟩
    rw [List.getElem?_take] at hn
    split at hn
    · rw [List.getElem?_drop] at hn
      exact ⟨offset + n, hn, by omega, by omega⟩
    · cases hn
  · rintro ⟨n, hn, hfrom, hto⟩
    refine ⟨n - offset, ?_⟩
    rw [List.getElem?_take_of_lt (by omega), List.getElem?_drop]
    rwa [Nat.add_sub_cancel' hfrom]

theorem div_of_page {n k : ℕ} (hfrom : k * limit ≤ n)
    (hto : n < k * limit + limit) : n / limit = k := by
  apply Nat.div_eq_of_lt_le hfrom
  rwa [Nat.succ_mul]

/-- The page on which a row stands, when all its ties are on one page. -/
theorem page_of_mem (hties : TiesTogether r limit rows)
    (h : Arranged r rows l) {k : ℕ} (hx : x ∈ page limit (k * limit) l) :
    before r rows x / limit = k := by
  obtain ⟨n, hn, hfrom, hto⟩ := mem_page_getElem.mp hx
  obtain ⟨hlow, hhigh⟩ := h.position hn
  have hk := div_of_page hfrom hto
  have hrow : x ∈ rows := h.perm.mem_iff.mp (List.mem_of_getElem? hn)
  apply Nat.le_antisymm
  · rw [← hk]
    exact Nat.div_le_div_right hlow
  · rw [hties x hrow, ← hk]
    exact Nat.div_le_div_right (by omega)

theorem mem_page_of_ties (hlimit : 0 < limit) (hties : TiesTogether r limit rows)
    (h : Arranged r rows l) (hx : x ∈ rows) :
    x ∈ page limit (before r rows x / limit * limit) l := by
  obtain ⟨n, hn⟩ := List.mem_iff_getElem?.mp (h.perm.mem_iff.mpr hx)
  obtain ⟨hlow, hhigh⟩ := h.position hn
  have hdiv : n / limit = before r rows x / limit := by
    apply Nat.le_antisymm
    · rw [hties x hx]
      exact Nat.div_le_div_right (by omega)
    · exact Nat.div_le_div_right hlow
  rw [← hdiv]
  apply mem_page_getElem.mpr
  have hmod := Nat.mod_lt n hlimit
  have hsplit := Nat.div_add_mod' n limit
  exact ⟨n, hn, by omega, by omega⟩

/-- With ties kept together the pages hold every row once, whatever each query chooses. -/
theorem pages_perm (hlimit : 0 < limit) (hnodup : rows.Nodup) (hties : TiesTogether r limit rows)
    (hchoice : ∀ k, Arranged r rows (choice k)) {n : ℕ} (hn : rows.length ≤ n * limit) :
    (pages limit choice n).Perm rows := by
  have hdistinct : (pages limit choice n).Nodup := by
    rw [pages, List.nodup_flatMap]
    constructor
    · intro k _
      have hrow := (hchoice k).perm.nodup_iff.mpr hnodup
      exact List.Nodup.sublist ((List.take_sublist _ _).trans (List.drop_sublist _ _)) hrow
    · apply List.nodup_range.imp
      intro i j hij y hi hj
      have hpi := page_of_mem hties (hchoice i) hi
      have hpj := page_of_mem hties (hchoice j) hj
      exact hij (hpi.symm.trans hpj)
  rw [List.perm_ext_iff_of_nodup hdistinct hnodup]
  intro y
  rw [pages, List.mem_flatMap]
  constructor
  · rintro ⟨k, -, hy⟩
    obtain ⟨m, hm, -⟩ := mem_page_getElem.mp hy
    exact (hchoice k).perm.mem_iff.mp (List.mem_of_getElem? hm)
  · intro hy
    refine ⟨before r rows y / limit, List.mem_range.mpr ?_, mem_page_of_ties hlimit hties
      (hchoice _) hy⟩
    apply Nat.div_lt_of_lt_mul
    have hlt := before_lt_upTo (r := r) hy
    have hle : upTo r rows y ≤ rows.length := List.countP_le_length
    rw [Nat.mul_comm]
    omega

theorem page_unique {n i j : ℕ} (h : (pages limit choice n).Nodup) (hi : i ∈ List.range n)
    (hj : j ∈ List.range n) (hxi : x ∈ page limit (i * limit) (choice i))
    (hxj : x ∈ page limit (j * limit) (choice j)) : i = j := by
  have hsymm : Std.Symm (Function.onFun List.Disjoint fun k => page limit (k * limit) (choice k)) :=
    ⟨fun _ _ hdisjoint _ ha hb => hdisjoint hb ha⟩
  by_contra hne
  exact (List.nodup_flatMap.mp h).2.forall hi hj hne hxi hxj

/-- Ties on two pages can be arranged so that a row is on both. -/
theorem exists_doubled (hlimit : 0 < limit) (hx : x ∈ rows)
    (hsplit : before r rows x / limit ≠ (upTo r rows x - 1) / limit) :
    ∃ choice : ℕ → List α, (∀ k, Arranged r rows (choice k)) ∧
      ¬ (pages limit choice rows.length).Nodup := by
  obtain ⟨first, hfirst, hbefore⟩ := exists_arranged_first (r := r) hx
  obtain ⟨last, hlast, hupTo⟩ := exists_arranged_last (r := r) hx
  have hlt := before_lt_upTo (r := r) hx
  have hle : upTo r rows x ≤ rows.length := List.countP_le_length
  refine ⟨fun k => if k = (upTo r rows x - 1) / limit then last else first, ?_, ?_⟩
  · intro k
    by_cases hk : k = (upTo r rows x - 1) / limit
    · simpa only [if_pos hk] using hlast
    · simpa only [if_neg hk] using hfirst
  · intro hnodup
    have hrange : ∀ m, m < rows.length → m / limit ∈ List.range rows.length := fun m h =>
      List.mem_range.mpr (Nat.lt_of_le_of_lt (Nat.div_le_self m limit) h)
    have hpage : ∀ {m : ℕ} {l : List α}, l[m]? = some x → x ∈ page limit (m / limit * limit) l := by
      intro m l hm
      have hmod := Nat.mod_lt m hlimit
      have hdiv := Nat.div_add_mod' m limit
      exact mem_page_getElem.mpr ⟨m, hm, by omega, by omega⟩
    apply hsplit
    apply page_unique hnodup (hrange _ (by omega)) (hrange _ (by omega)) (x := x)
    · simp only [if_neg hsplit]
      exact hpage hbefore
    · simp only [if_true]
      exact hpage hupTo

/-- The pages partition the rows for every choice exactly when ties are kept together. -/
theorem pages_perm_iff (hlimit : 0 < limit) (hnodup : rows.Nodup) :
    (∀ choice : ℕ → List α, (∀ k, Arranged r rows (choice k)) → ∀ n, rows.length ≤ n * limit →
      (pages limit choice n).Perm rows) ↔ TiesTogether r limit rows := by
  constructor
  · intro hall x hx
    by_contra hsplit
    obtain ⟨choice, hchoice, hdoubled⟩ := exists_doubled hlimit hx hsplit
    apply hdoubled
    apply (hall choice hchoice rows.length (Nat.le_mul_of_pos_right _ hlimit)).nodup_iff.mpr
    exact hnodup
  · intro hties choice hchoice n hn
    exact pages_perm hlimit hnodup hties hchoice hn

/-- Rows without ties are kept together. -/
theorem tiesTogether_of_strict (hnodup : rows.Nodup)
    (hstrict : ∀ x ∈ rows, ∀ y ∈ rows, r.le x y = true → r.le y x = true → x = y) :
    TiesTogether r limit rows := by
  intro x hx
  congr 1
  obtain ⟨l, hl, hfirst⟩ := exists_arranged_first (r := r) hx
  obtain ⟨l', hl', hlast⟩ := exists_arranged_last (r := r) hx
  have hsame : l = l' := by
    apply List.Perm.eq_of_pairwise ?_ hl.sorted hl'.sorted (hl.perm.trans hl'.perm.symm)
    intro a b ha hb hab hba
    exact hstrict a (hl.perm.mem_iff.mp ha) b (hl'.perm.mem_iff.mp hb) hab hba
  subst hsame
  have hdistinct := hl.perm.nodup_iff.mpr hnodup
  exact (List.getElem?_inj (List.getElem?_eq_some_iff.mp hfirst).1 hdistinct).mp
    (hfirst.trans hlast.symm)

end SortedPages
