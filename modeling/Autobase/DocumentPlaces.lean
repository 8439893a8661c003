import Autobase.DocumentTrees
import Mathlib.Data.Int.Basic

/-! # Places in a document

A place is reached by steps from the root, each of them a key of a mapping or an index of a list;
an index below zero counts from the end. What is written to a place is read there, and places that
part from it keep what they hold. -/
namespace DocumentPlaces

open ObjectLiterals DocumentTrees

inductive Step where
  | key (k : String)
  | index (i : ℤ)
  deriving DecidableEq, Repr

variable {σ : Type*}

/-- The position an index stands for in a list of `n` members. -/
def position (n : ℕ) (i : ℤ) : Option ℕ :=
  if 0 ≤ i then if i < n then some i.toNat else none
  else if -(n : ℤ) ≤ i then some (n + i).toNat else none

def child : Step → Doc σ → Option (Doc σ)
  | .key k, .dict m => m.lookup k
  | .index i, .list xs => (position xs.length i).bind fun n => xs[n]?
  | _, _ => none

def read : List Step → Doc σ → Option (Doc σ)
  | [], d => some d
  | s :: p, d => (child s d).bind (read p)

/-- What is written into: a mapping takes the place of what is blank or missing. -/
def room (blank : Doc σ → Bool) (d : Option (Doc σ)) : Doc σ :=
  match d with
  | some d => if blank d then .dict [] else d
  | none => .dict []

/-- A new value at a place. The index after the last one appends. -/
def write (blank : Doc σ → Bool) : List Step → Doc σ → Doc σ → Option (Doc σ)
  | [], v, _ => some v
  | [.key k], v, .dict m => some (.dict (assign k v m))
  | [.index i], v, .list xs =>
    if i = xs.length then some (.list (xs ++ [v]))
    else (position xs.length i).map fun n => .list (xs.set n v)
  | .key k :: p, v, .dict m =>
    (write blank p v (room blank (m.lookup k))).map fun c => .dict (assign k c m)
  | .index i :: p, v, .list xs =>
    (position xs.length i).bind fun n =>
      xs[n]?.bind fun x => (write blank p v x).map fun c => .list (xs.set n c)
  | _ :: _, _, _ => none

/-- An existing place is changed. -/
def update (f : Doc σ → Option (Doc σ)) : List Step → Doc σ → Option (Doc σ)
  | [], d => f d
  | .key k :: p, .dict m =>
    (m.lookup k).bind fun c => (update f p c).map fun c' => .dict (assign k c' m)
  | .index i :: p, .list xs =>
    (position xs.length i).bind fun n =>
      xs[n]?.bind fun x => (update f p x).map fun c => .list (xs.set n c)
  | _ :: _, _ => none

/-- A member is taken out; the ones behind it move up. -/
def dropChild : Step → Doc σ → Option (Doc σ)
  | .key k, .dict m =>
    if k ∈ keys m then some (.dict (m.filter fun a => decide (a.1 ≠ k))) else none
  | .index i, .list xs => (position xs.length i).map fun n => .list (xs.eraseIdx n)
  | _, _ => none

/-- Two steps that never lead to one member. -/
def Separate : Step → Step → Prop
  | .key k, .key l => k ≠ l
  | .index i, .index j => 0 ≤ i ∧ 0 ≤ j ∧ i ≠ j
  | _, _ => True

/-- The places part at some step. -/
def Diverge : List Step → List Step → Prop
  | s :: p, t :: q => Separate s t ∨ s = t ∧ Diverge p q
  | _, _ => False

instance : (s t : Step) → Decidable (Separate s t)
  | .key k, .key l => inferInstanceAs (Decidable (k ≠ l))
  | .index i, .index j => inferInstanceAs (Decidable (0 ≤ i ∧ 0 ≤ j ∧ i ≠ j))
  | .key _, .index _ | .index _, .key _ => inferInstanceAs (Decidable True)

instance decidableDiverge : (p q : List Step) → Decidable (Diverge p q)
  | s :: p, t :: q =>
    have := decidableDiverge p q
    inferInstanceAs (Decidable (Separate s t ∨ s = t ∧ Diverge p q))
  | [], _ | _ :: _, [] => inferInstanceAs (Decidable False)

section Places

variable {blank : Doc σ → Bool} {p q : List Step} {v w d d' : Doc σ} {s t : Step}
  {m : List (String × Doc σ)} {xs : List (Doc σ)} {i j : ℤ} {n k : ℕ}

theorem position_lt (h : position n i = some k) : k < n := by
  rw [position] at h
  split at h
  · split at h
    · obtain rfl := Option.some.inj h
      omega
    · cases h
  · split at h
    · obtain rfl := Option.some.inj h
      omega
    · cases h

theorem position_of_nonneg (hi : 0 ≤ i) (hn : i < n) : position n i = some i.toNat := by
  rw [position, if_pos hi, if_pos hn]

theorem position_of_ge (hi : 0 ≤ i) (hn : (n : ℤ) ≤ i) : position n i = none := by
  rw [position, if_pos hi, if_neg (by omega)]

theorem position_eq_some (h : position n i = some k) : (k : ℤ) = if 0 ≤ i then i else n + i := by
  rw [position] at h
  split at h
  · next hi =>
    split at h
    · obtain rfl := Option.some.inj h
      rw [if_pos hi]
      omega
    · cases h
  · next hi =>
    split at h
    · obtain rfl := Option.some.inj h
      rw [if_neg hi]
      omega
    · cases h

theorem position_isSome : (position n i).isSome ↔ -(n : ℤ) ≤ i ∧ i < n := by
  rw [position]
  split
  · split
    · simp only [Option.isSome_some, true_iff]
      omega
    · simp only [Option.isSome_none, Bool.false_eq_true, false_iff]
      omega
  · split
    · simp only [Option.isSome_some, true_iff]
      omega
    · simp only [Option.isSome_none, Bool.false_eq_true, false_iff]
      omega

@[simp] theorem read_nil (d : Doc σ) : read [] d = some d := rfl

theorem read_cons (s : Step) (p : List Step) (d : Doc σ) :
    read (s :: p) d = (child s d).bind (read p) := rfl

/-- The three ways in which a value is written below a step. -/
theorem write_cases (h : write blank (s :: p) v d = some d') :
    (∃ k m c, s = .key k ∧ d = .dict m ∧ write blank p v (room blank (m.lookup k)) = some c ∧
      d' = .dict (assign k c m)) ∨
    (∃ i xs n x c, s = .index i ∧ d = .list xs ∧ position xs.length i = some n ∧
      xs[n]? = some x ∧ write blank p v x = some c ∧ d' = .list (xs.set n c)) ∨
    ∃ xs : List (Doc σ), s = .index xs.length ∧ p = [] ∧ d = .list xs ∧
      d' = .list (xs ++ [v]) := by
  cases s with
  | key k =>
    cases d with
    | dict m =>
      refine Or.inl ⟨k, m, ?_⟩
      cases p with
      | nil => exact ⟨v, rfl, rfl, rfl, (Option.some.inj h).symm⟩
      | cons t p =>
        obtain ⟨c, hc, rfl⟩ := Option.map_eq_some_iff.mp h
        exact ⟨c, rfl, rfl, hc, rfl⟩
    | scalar a => cases p <;> cases h
    | list xs => cases p <;> cases h
  | index i =>
    refine Or.inr ?_
    cases d with
    | list xs =>
      cases p with
      | nil =>
        rw [write] at h
        split at h
        · next hi => exact Or.inr ⟨xs, by rw [hi], rfl, rfl, (Option.some.inj h).symm⟩
        · obtain ⟨n, hn, rfl⟩ := Option.map_eq_some_iff.mp h
          have hlt := position_lt hn
          exact Or.inl ⟨i, xs, n, xs[n], v, rfl, rfl, hn, List.getElem?_eq_getElem hlt, rfl, rfl⟩
      | cons t p =>
        obtain ⟨n, hn, h⟩ := Option.bind_eq_some_iff.mp h
        obtain ⟨x, hx, h⟩ := Option.bind_eq_some_iff.mp h
        obtain ⟨c, hc, rfl⟩ := Option.map_eq_some_iff.mp h
        exact Or.inl ⟨i, xs, n, x, c, rfl, rfl, hn, hx, hc, rfl⟩
    | scalar a => cases p <;> cases h
    | dict m => cases p <;> cases h

/-! ### Members after a change -/

theorem child_assign_self (k : String) (c : Doc σ) (m : List (String × Doc σ)) :
    child (.key k) (Doc.dict (assign k c m)) = some c := by
  rw [child, lookup_assign, if_pos rfl]

theorem child_list (hn : position xs.length i = some n) (hx : xs[n]? = some v) :
    child (.index i) (Doc.list xs) = some v := by
  rw [child, hn, Option.bind_some, hx]

theorem child_set_self (hn : position xs.length i = some n) (c : Doc σ) :
    child (.index i) (Doc.list (xs.set n c)) = some c := by
  rw [child, List.length_set, hn, Option.bind_some, List.getElem?_set_self (position_lt hn)]

theorem child_set_other {c : Doc σ} (hn : position xs.length i = some n)
    (h : Separate (.index i) t) : child t (Doc.list (xs.set n c)) = child t (Doc.list xs) := by
  cases t with
  | key l => rfl
  | index j =>
    obtain ⟨hi, hj, hne⟩ := h
    rw [child, child, List.length_set]
    refine Option.bind_congr fun n' hn' => ?_
    have hpos := position_eq_some hn
    have hpos' := position_eq_some hn'
    rw [if_pos hi] at hpos
    rw [if_pos hj] at hpos'
    rw [List.getElem?_set_ne (by omega)]

theorem child_append_self (xs : List (Doc σ)) (v : Doc σ) :
    child (.index xs.length) (Doc.list (xs ++ [v])) = some v := by
  refine child_list (n := xs.length) ?_ List.getElem?_concat_length
  rw [position_of_nonneg (by omega) (by rw [List.length_append, List.length_singleton]; omega),
    Int.toNat_natCast]

theorem child_append_other (h : Separate (.index xs.length) t) :
    child t (Doc.list (xs ++ [v])) = child t (Doc.list xs) := by
  cases t with
  | key l => rfl
  | index j =>
    obtain ⟨-, hj, hne⟩ := h
    rw [child, child, List.length_append, List.length_singleton]
    rcases Int.lt_trichotomy j xs.length with hlt | he | hlt
    · rw [position_of_nonneg hj (by omega), position_of_nonneg hj hlt, Option.bind_some,
        Option.bind_some, List.getElem?_append_left (by omega)]
    · exact absurd he.symm hne
    · rw [position_of_ge hj (by omega), position_of_ge hj (by omega)]
      rfl

/-! ### Laws of a write -/

/-- What was written is read. -/
theorem read_write_self (h : write blank p v d = some d') : read p d' = some v := by
  induction p generalizing d d' with
  | nil =>
    obtain rfl := Option.some.inj h
    rfl
  | cons s p ih =>
    rw [read_cons]
    rcases write_cases h with ⟨k, m, c, rfl, rfl, hc, rfl⟩ |
      ⟨i, xs, n, x, c, rfl, rfl, hn, -, hc, rfl⟩ | ⟨xs, rfl, rfl, rfl, rfl⟩
    · rw [child_assign_self, Option.bind_some, ih hc]
    · rw [child_set_self hn, Option.bind_some, ih hc]
    · rw [child_append_self, Option.bind_some, read_nil]

/-- No member is found in what is blank. -/
def Hollow (blank : Doc σ → Bool) : Prop := ∀ d s, blank d = true → child s d = none

theorem child_empty (t : Step) : child t (Doc.dict ([] : List (String × Doc σ))) = none := by
  cases t <;> rfl

theorem separate_symm (h : Separate s t) : Separate t s := by
  cases s with
  | key k =>
    cases t with
    | key l => exact Ne.symm h
    | index j => trivial
  | index i =>
    cases t with
    | key l => trivial
    | index j => exact ⟨h.2.1, h.1, Ne.symm h.2.2⟩

theorem diverge_symm (h : Diverge p q) : Diverge q p := by
  induction p generalizing q with
  | nil => cases h
  | cons s p ih =>
    cases q with
    | nil => cases h
    | cons t q =>
      rcases h with h | ⟨rfl, h⟩
      · exact Or.inl (separate_symm h)
      · exact Or.inr ⟨rfl, ih h⟩

theorem diverge_ne_nil (h : Diverge p q) : q ≠ [] := by
  cases p with
  | nil => cases h
  | cons s p =>
    cases q with
    | nil => cases h
    | cons t q => exact List.cons_ne_nil t q

/-! ### Laws of an update -/

theorem update_cases {f : Doc σ → Option (Doc σ)} (h : update f (s :: p) d = some d') :
    (∃ k m c c', s = .key k ∧ d = .dict m ∧ m.lookup k = some c ∧ update f p c = some c' ∧
      d' = .dict (assign k c' m)) ∨
    ∃ i xs n c c', s = .index i ∧ d = .list xs ∧ position xs.length i = some n ∧
      xs[n]? = some c ∧ update f p c = some c' ∧ d' = .list (xs.set n c') := by
  cases s with
  | key k =>
    cases d with
    | dict m =>
      obtain ⟨c, hc, h⟩ := Option.bind_eq_some_iff.mp h
      obtain ⟨c', hc', rfl⟩ := Option.map_eq_some_iff.mp h
      exact Or.inl ⟨k, m, c, c', rfl, rfl, hc, hc', rfl⟩
    | scalar a => cases h
    | list xs => cases h
  | index i =>
    cases d with
    | list xs =>
      obtain ⟨n, hn, h⟩ := Option.bind_eq_some_iff.mp h
      obtain ⟨c, hc, h⟩ := Option.bind_eq_some_iff.mp h
      obtain ⟨c', hc', rfl⟩ := Option.map_eq_some_iff.mp h
      exact Or.inr ⟨i, xs, n, c, c', rfl, rfl, hn, hc, hc', rfl⟩
    | scalar a => cases h
    | dict m => cases h

/-- The value at the place is changed as the function says. -/
theorem read_update_self {f : Doc σ → Option (Doc σ)} (h : update f p d = some d') :
    ∃ c c', read p d = some c ∧ f c = some c' ∧ read p d' = some c' := by
  induction p generalizing d d' with
  | nil => exact ⟨d, d', rfl, h, rfl⟩
  | cons s p ih =>
    rcases update_cases h with ⟨k, m, c, c', rfl, rfl, hc, hc', rfl⟩ |
      ⟨i, xs, n, c, c', rfl, rfl, hn, hc, hc', rfl⟩
    · obtain ⟨u, u', hu, hf, hu'⟩ := ih hc'
      refine ⟨u, u', ?_, hf, ?_⟩
      · rw [read_cons, child, hc, Option.bind_some, hu]
      · rw [read_cons, child_assign_self, Option.bind_some, hu']
    · obtain ⟨u, u', hu, hf, hu'⟩ := ih hc'
      refine ⟨u, u', ?_, hf, ?_⟩
      · rw [read_cons, child_list hn hc, Option.bind_some, hu]
      · rw [read_cons, child_set_self hn, Option.bind_some, hu']

theorem update_of_read {f : Doc σ → Option (Doc σ)} (h : read p d = some v) (hf : f v = some w) :
    ∃ d', update f p d = some d' := by
  induction p generalizing d with
  | nil =>
    obtain rfl := Option.some.inj h
    exact ⟨w, hf⟩
  | cons s p ih =>
    obtain ⟨c, hc, h⟩ := Option.bind_eq_some_iff.mp h
    obtain ⟨c', hc'⟩ := ih h
    cases s with
    | key k =>
      cases d with
      | dict m =>
        rw [child] at hc
        exact ⟨.dict (assign k c' m), by rw [update, hc, Option.bind_some, hc', Option.map_some]⟩
      | scalar a => cases hc
      | list xs => cases hc
    | index i =>
      cases d with
      | list xs =>
        obtain ⟨n, hn, hx⟩ := Option.bind_eq_some_iff.mp hc
        exact ⟨.list (xs.set n c'),
          by rw [update, hn, Option.bind_some, hx, Option.bind_some, hc', Option.map_some]⟩
      | scalar a => cases hc
      | dict m => cases hc

/-- What the function makes of the value there is a value of its own. -/
theorem update_const {f : Doc σ → Option (Doc σ)} (h : update f p d = some d') :
    ∃ c, update (fun _ => some c) p d = some d' := by
  induction p generalizing d d' with
  | nil => exact ⟨d', rfl⟩
  | cons s p ih =>
    rcases update_cases h with ⟨k, m, c, c', rfl, rfl, hc, hc', rfl⟩ |
      ⟨i, xs, n, c, c', rfl, rfl, hn, hc, hc', rfl⟩
    · obtain ⟨u, hu⟩ := ih hc'
      exact ⟨u, by rw [update, hc, Option.bind_some, hu, Option.map_some]⟩
    · obtain ⟨u, hu⟩ := ih hc'
      exact ⟨u, by rw [update, hn, Option.bind_some, hc, Option.bind_some, hu, Option.map_some]⟩

/-- Two places part where one goes on from the other's last step, or before. -/
theorem diverge_append (h : Diverge (p ++ [s]) q) :
    Diverge p q ∨ ∃ t q', q = p ++ t :: q' ∧ Separate s t := by
  induction p generalizing q with
  | nil =>
    cases q with
    | nil => cases h
    | cons t q =>
      rcases h with h | ⟨-, h⟩
      · exact Or.inr ⟨t, q, rfl, h⟩
      · cases h
  | cons r p ih =>
    cases q with
    | nil => cases h
    | cons t q =>
      rcases h with h | ⟨rfl, h⟩
      · exact Or.inl (Or.inl h)
      · rcases ih h with hpart | ⟨u, q', rfl, hst⟩
        · exact Or.inl (Or.inr ⟨rfl, hpart⟩)
        · exact Or.inr ⟨u, q', rfl, hst⟩

/-- An existing place is written to as it is changed. -/
theorem write_of_update (hblank : Hollow blank) (h : update (fun _ => some v) p d = some d') :
    write blank p v d = some d' := by
  induction p generalizing d d' with
  | nil => exact h
  | cons s p ih =>
    rcases update_cases h with ⟨k, m, c, c', rfl, rfl, hc, hc', rfl⟩ |
      ⟨i, xs, n, c, c', rfl, rfl, hn, hc, hc', rfl⟩
    · cases p with
      | nil => rw [write, Option.some.inj hc']
      | cons t q =>
        have hfull : blank c = false := by
          rw [← Bool.not_eq_true]
          intro hb
          obtain ⟨w, -, hw, -, -⟩ := read_update_self hc'
          rw [read_cons, hblank c t hb] at hw
          cases hw
        rw [write, hc, room, if_neg (by simp [hfull]), ih hc', Option.map_some]
        exact fun hq => List.cons_ne_nil t q hq
    · cases p with
      | nil =>
        have hlt := (position_isSome (n := xs.length) (i := i)).mp (by rw [hn]; rfl)
        rw [write, if_neg (by omega), hn, Option.map_some, Option.some.inj hc']
      | cons t q =>
        rw [write, hn, Option.bind_some, hc, Option.bind_some, ih hc', Option.map_some]
        exact fun hq => List.cons_ne_nil t q hq

/-! ### Members that are taken out -/

theorem lookup_filter_ne (k l : String) (m : List (String × Doc σ)) :
    (m.filter fun a => decide (a.1 ≠ k)).lookup l = if l = k then none else m.lookup l := by
  induction m with
  | nil => simp
  | cons a m ih =>
    by_cases ha : a.1 = k
    · rw [List.filter_cons_of_neg (by simpa using ha), ih, lookup_cons_eq]
      split
      · rfl
      · next hl => rw [if_neg (fun h => hl (h.trans ha))]
    · rw [List.filter_cons_of_pos (by simpa using ha), lookup_cons_eq, lookup_cons_eq, ih]
      split
      · next hl => rw [if_neg (fun h => ha (hl.symm.trans h))]
      · rfl

theorem child_dropChild_key {k : String} (h : dropChild (.key k) d = some d') (t : Step) :
    child t d' = if t = .key k then none else child t d := by
  cases d with
  | dict m =>
    rw [dropChild] at h
    split at h
    · obtain rfl := Option.some.inj h
      cases t with
      | index j => rfl
      | key l =>
        rw [child, lookup_filter_ne, child]
        simp only [Step.key.injEq]
    · cases h
  | scalar a => cases h
  | list xs => cases h

/-! ### Equal documents -/

section Congruence

variable {same : σ → σ → Bool} {e : Doc σ} {ys : List (Doc σ)}

theorem eqvList_getElem (h : eqvList same xs ys = true) (n : ℕ) :
    Option.Rel (fun a b => a.eqv same b = true) xs[n]? ys[n]? := by
  induction xs generalizing ys n with
  | nil =>
    cases ys with
    | nil => exact Option.Rel.none
    | cons y ys => cases h
  | cons x xs ih =>
    cases ys with
    | nil => cases h
    | cons y ys =>
      obtain ⟨hxy, hrest⟩ := Bool.and_eq_true_iff.mp h
      cases n with
      | zero => exact Option.Rel.some hxy
      | succ n => exact ih hrest n

theorem eqvList_length (h : eqvList same xs ys = true) : xs.length = ys.length := by
  induction xs generalizing ys with
  | nil =>
    cases ys with
    | nil => rfl
    | cons y ys => cases h
  | cons x xs ih =>
    cases ys with
    | nil => cases h
    | cons y ys => rw [List.length_cons, List.length_cons, ih (Bool.and_eq_true_iff.mp h).2]

theorem child_eqv (h : d.eqv same e = true) (s : Step) :
    Option.Rel (fun a b => a.eqv same b = true) (child s d) (child s e) := by
  cases d with
  | scalar a =>
    cases e with
    | scalar b => cases s <;> exact Option.Rel.none
    | list ys => cases h
    | dict n => cases h
  | list xs =>
    cases e with
    | scalar b => cases h
    | dict n => cases h
    | list ys =>
      cases s with
      | key k => exact Option.Rel.none
      | index i =>
        rw [child, child, eqvList_length h]
        cases position ys.length i with
        | none => exact Option.Rel.none
        | some n => exact eqvList_getElem h n
  | dict m =>
    cases e with
    | scalar b => cases h
    | list ys => cases h
    | dict n =>
      obtain ⟨hnm, hmn⟩ := eqv_dict_iff.mp h
      cases s with
      | index i => exact Option.Rel.none
      | key k =>
        rw [child, child]
        cases hk : m.lookup k with
        | none =>
          have hnotMem : k ∉ keys n := by
            intro hmem
            obtain ⟨a, ha, rfl⟩ := List.mem_map.mp hmem
            obtain ⟨b, hb, hba⟩ := List.mem_map.mp (hnm a ha)
            have hne := List.lookup_eq_none_iff.mp hk b hb
            simp [hba] at hne
          rw [lookup_of_notMem hnotMem]
          exact Option.Rel.none
        | some v =>
          obtain ⟨l₁, l₂, hm, -⟩ := List.lookup_eq_some_iff.mp hk
          obtain ⟨w, hw, hvw⟩ := hmn (k, v) (by rw [hm]; simp)
          rw [hw]
          exact Option.Rel.some hvw

/-- Equal documents hold equal values at every place. -/
theorem read_eqv (h : d.eqv same e = true) (p : List Step) :
    Option.Rel (fun a b => a.eqv same b = true) (read p d) (read p e) := by
  induction p generalizing d e with
  | nil => exact Option.Rel.some h
  | cons s p ih =>
    rw [read_cons, read_cons]
    cases hd : child s d with
    | none =>
      have hchild := child_eqv h s
      rw [hd] at hchild
      cases he : child s e with
      | none => exact Option.Rel.none
      | some c => rw [he] at hchild; cases hchild
    | some c =>
      have hchild := child_eqv h s
      rw [hd] at hchild
      cases he : child s e with
      | none => rw [he] at hchild; cases hchild
      | some c' =>
        rw [he] at hchild
        cases hchild with
        | some hcc => exact ih hcc

end Congruence

end Places

end DocumentPlaces
