import Mathlib.Data.List.Basic
import Mathlib.Data.List.Count
import Mathlib.Data.List.Nodup
import Mathlib.Order.Basic

/-! # Rows of a table

An update keeps the order of the rows, a deletion keeps the rows it does not select. -/
namespace RowTables

variable {α β ν : Type*}

def updateWhere (p : α → Bool) (f : α → α) (rows : List α) : List α :=
  rows.map fun r => if p r then f r else r

def deleteWhere (p : α → Bool) (rows : List α) : List α := rows.filter fun r => !p r

theorem mem_updateWhere {p : α → Bool} {f : α → α} {rows : List α} {r : α} :
    r ∈ updateWhere p f rows ↔ ∃ q ∈ rows, r = if p q then f q else q := by
  simp only [updateWhere, List.mem_map, eq_comm]

/-- A column that the update does not write. -/
theorem map_updateWhere {p : α → Bool} {f : α → α} {g : α → β} (h : ∀ r, g (f r) = g r)
    (rows : List α) : (updateWhere p f rows).map g = rows.map g := by
  simp only [updateWhere, List.map_map]
  apply List.map_congr_left
  intro r _
  by_cases hp : p r <;> simp [hp, h]

theorem countP_updateWhere {p q : α → Bool} {f : α → α} (h : ∀ r, q (f r) = q r)
    (rows : List α) : (updateWhere p f rows).countP q = rows.countP q := by
  simp only [updateWhere, List.countP_map]
  congr 1
  funext r
  by_cases hp : p r <;> simp [hp, h]

theorem find?_updateWhere {p q : α → Bool} {f : α → α} (h : ∀ r, q (f r) = q r)
    (rows : List α) :
    (updateWhere p f rows).find? q = (rows.find? q).map fun r => if p r then f r else r := by
  simp only [updateWhere, List.find?_map]
  congr 2
  funext r
  by_cases hp : p r <;> simp [hp, h]

theorem updateWhere_eq_self {p : α → Bool} {f : α → α} {rows : List α}
    (h : ∀ r ∈ rows, p r = false) : updateWhere p f rows = rows := by
  simp only [updateWhere]
  conv_rhs => rw [← List.map_id rows]
  apply List.map_congr_left
  intro r hr
  simp [h r hr]

theorem mem_deleteWhere {p : α → Bool} {rows : List α} {r : α} :
    r ∈ deleteWhere p rows ↔ r ∈ rows ∧ p r = false := by
  simp [deleteWhere]

theorem deleteWhere_eq_self {p : α → Bool} {rows : List α} (h : ∀ r ∈ rows, p r = false) :
    deleteWhere p rows = rows := by
  simp only [deleteWhere, List.filter_eq_self]
  intro r hr
  simp [h r hr]

theorem countP_deleteWhere (p q : α → Bool) (rows : List α) :
    (deleteWhere p rows).countP q + (rows.filter p).countP q = rows.countP q := by
  induction rows with
  | nil => rfl
  | cons r rows ih =>
    simp only [deleteWhere] at ih ⊢
    by_cases hp : p r <;> by_cases hq : q r <;> simp [hp, hq] <;> omega

/-- The row with a given key, when keys are unique. -/
theorem eq_of_key_eq {g : α → β} {rows : List α} (h : (rows.map g).Nodup) {r s : α}
    (hr : r ∈ rows) (hs : s ∈ rows) (hk : g r = g s) : r = s :=
  List.inj_on_of_nodup_map h hr hs hk

/-! ## Rows numbered by a sequence -/

/-- Rows go only when they are deleted, and a new row bears a number the sequence had not yet
issued. -/
structure Evolves [LE ν] (number : α → ν) (deleted : α → Prop) (rows rows' : List α)
    (next next' : ν) : Prop where
  kept : ∀ r ∈ rows, ¬ deleted r → r ∈ rows'
  issued : ∀ r ∈ rows', r ∈ rows ∨ next ≤ number r
  ahead : next ≤ next'

section Numbered

variable [Preorder ν] {number : α → ν} {deleted deleted' : α → Prop}
  {rows rows' rows'' : List α} {next next' next'' : ν}

theorem Evolves.same (h : rows' = rows) (hn : next ≤ next') :
    Evolves number deleted rows rows' next next' :=
  ⟨fun _ hr _ => h ▸ hr, fun _ hr => Or.inl (h ▸ hr), hn⟩

theorem Evolves.append (new : α) (h : rows' = rows ++ [new]) (hnew : number new = next)
    (hn : next ≤ next') : Evolves number deleted rows rows' next next' := by
  refine ⟨fun r hr _ => h ▸ List.mem_append_left _ hr, fun r hr => ?_, hn⟩
  rw [h] at hr
  rcases List.mem_append.mp hr with hr | hr
  · exact Or.inl hr
  · exact Or.inr (List.mem_singleton.mp hr ▸ hnew.ge)

theorem Evolves.trans (h : Evolves number deleted rows rows' next next')
    (h' : Evolves number deleted' rows' rows'' next' next'') :
    Evolves number (fun r => deleted r ∨ deleted' r) rows rows'' next next'' := by
  refine ⟨fun r hr hd => h'.kept r (h.kept r hr fun hdel => hd (Or.inl hdel))
    fun hdel => hd (Or.inr hdel), fun r hr => ?_, le_trans h.ahead h'.ahead⟩
  rcases h'.issued r hr with hr | hr
  · exact h.issued r hr
  · exact Or.inr (le_trans h.ahead hr)

theorem Evolves.weaken (h : Evolves number deleted rows rows' next next')
    (hd : ∀ r, deleted r → deleted' r) : Evolves number deleted' rows rows' next next' :=
  ⟨fun r hr hno => h.kept r hr fun hdel => hno (hd r hdel), h.issued, h.ahead⟩

/-- A row that is gone does not come back. -/
theorem Evolves.absent (h : Evolves number deleted rows rows' next next') {r : α}
    (hno : r ∉ rows) (hr : number r < next) : r ∉ rows' := by
  intro hmem
  rcases h.issued r hmem with hold | hnew
  · exact hno hold
  · exact absurd (lt_of_lt_of_le hr hnew) (lt_irrefl _)

end Numbered

end RowTables
