import Autobase.ObjectLiterals

/-! # Documents

A document is a scalar, a list of documents or a mapping of texts to documents. It is a tree: no
node is in two places, as in a text without aliases. Two documents are equal up to the order in
which their mappings were written. -/
namespace DocumentTrees

open ObjectLiterals

inductive Doc (σ : Type*) where
  | scalar (a : σ)
  | list (xs : List (Doc σ))
  | dict (m : List (String × Doc σ))

variable {σ : Type*}

/-! ## Equality -/

section Equality

variable (same : σ → σ → Bool)

mutual
/-- Lists are compared member by member, mappings key by key in whatever order. -/
def Doc.eqv : Doc σ → Doc σ → Bool
  | .scalar a, .scalar b => same a b
  | .list xs, .list ys => eqvList xs ys
  | .dict m, .dict n => n.all (fun a => decide (a.1 ∈ keys m)) && eqvMembers m n
  | _, _ => false

def eqvList : List (Doc σ) → List (Doc σ) → Bool
  | [], [] => true
  | x :: xs, y :: ys => x.eqv y && eqvList xs ys
  | _, _ => false

def eqvMembers : List (String × Doc σ) → List (String × Doc σ) → Bool
  | [], _ => true
  | (k, v) :: m, n =>
    (match n.lookup k with
      | some w => v.eqv w
      | none => false) && eqvMembers m n
end

variable {same}

theorem eqvMembers_iff {m n : List (String × Doc σ)} :
    eqvMembers same m n = true ↔
      ∀ a ∈ m, ∃ w, n.lookup a.1 = some w ∧ a.2.eqv same w = true := by
  induction m with
  | nil => simp [eqvMembers]
  | cons a m ih =>
    obtain ⟨k, v⟩ := a
    rw [eqvMembers, Bool.and_eq_true, ih, List.forall_mem_cons]
    refine and_congr_left fun _ => ?_
    cases n.lookup k <;> simp

theorem eqv_dict_iff {m n : List (String × Doc σ)} :
    (Doc.dict m).eqv same (.dict n) = true ↔
      (∀ a ∈ n, a.1 ∈ keys m) ∧ ∀ a ∈ m, ∃ w, n.lookup a.1 = some w ∧ a.2.eqv same w = true := by
  rw [Doc.eqv, Bool.and_eq_true, eqvMembers_iff]
  simp

end Equality

/-! ## Mappings that hold every key once -/

mutual
def Doc.wellKeyed : Doc σ → Bool
  | .scalar _ => true
  | .list xs => wellKeyedList xs
  | .dict m => decide (keys m).Nodup && wellKeyedMembers m

def wellKeyedList : List (Doc σ) → Bool
  | [] => true
  | x :: xs => x.wellKeyed && wellKeyedList xs

def wellKeyedMembers : List (String × Doc σ) → Bool
  | [] => true
  | (_, v) :: m => v.wellKeyed && wellKeyedMembers m
end

theorem wellKeyedMembers_iff {m : List (String × Doc σ)} :
    wellKeyedMembers m = true ↔ ∀ a ∈ m, a.2.wellKeyed = true := by
  induction m with
  | nil => simp [wellKeyedMembers]
  | cons a m ih =>
    obtain ⟨k, v⟩ := a
    rw [wellKeyedMembers, Bool.and_eq_true, ih, List.forall_mem_cons]

theorem wellKeyed_dict_iff {m : List (String × Doc σ)} :
    (Doc.dict m).wellKeyed = true ↔ (keys m).Nodup ∧ ∀ a ∈ m, a.2.wellKeyed = true := by
  rw [Doc.wellKeyed, Bool.and_eq_true, decide_eq_true_eq, wellKeyedMembers_iff]

section Laws

variable {same : σ → σ → Bool}

mutual
theorem Doc.eqv_refl (hsame : ∀ a, same a a = true) :
    ∀ d : Doc σ, d.wellKeyed = true → d.eqv same d = true
  | .scalar a, _ => hsame a
  | .list xs, h => eqvList_refl hsame xs h
  | .dict m, h => by
    obtain ⟨hnodup, hm⟩ := wellKeyed_dict_iff.mp h
    have hself := members_refl hsame m hm
    refine eqv_dict_iff.mpr ⟨fun a ha => List.mem_map_of_mem ha, fun a ha => ?_⟩
    exact ⟨a.2, lookup_of_mem hnodup ha, hself a ha⟩

theorem eqvList_refl (hsame : ∀ a, same a a = true) :
    ∀ xs : List (Doc σ), wellKeyedList xs = true → eqvList same xs xs = true
  | [], _ => rfl
  | x :: xs, h => by
    rw [wellKeyedList, Bool.and_eq_true] at h
    rw [eqvList, Bool.and_eq_true]
    exact ⟨x.eqv_refl hsame h.1, eqvList_refl hsame xs h.2⟩

theorem members_refl (hsame : ∀ a, same a a = true) :
    ∀ m : List (String × Doc σ), (∀ a ∈ m, a.2.wellKeyed = true) →
      ∀ a ∈ m, a.2.eqv same a.2 = true
  | [], _ => List.forall_mem_nil _
  | (_, v) :: m, h => by
    obtain ⟨hv, hm⟩ := List.forall_mem_cons.mp h
    exact List.forall_mem_cons.mpr ⟨v.eqv_refl hsame hv, members_refl hsame m hm⟩
end

mutual
theorem Doc.eqv_trans (hsame : ∀ a b c, same a b = true → same b c = true → same a c = true) :
    ∀ d e f : Doc σ, d.eqv same e = true → e.eqv same f = true → d.eqv same f = true
  | .scalar a, .scalar b, .scalar c => hsame a b c
  | .list xs, .list ys, .list zs => eqvList_trans hsame xs ys zs
  | .dict m, .dict n, .dict o => by
    intro h h'
    obtain ⟨hnm, hmn⟩ := eqv_dict_iff.mp h
    obtain ⟨hon, hno⟩ := eqv_dict_iff.mp h'
    refine eqv_dict_iff.mpr ⟨fun a ha => ?_, fun a ha => ?_⟩
    · obtain ⟨b, hb, hk⟩ := List.mem_map.mp (hon a ha)
      exact hk ▸ hnm b hb
    · obtain ⟨v, hv, hav⟩ := hmn a ha
      obtain ⟨l₁, l₂, hn, -⟩ := List.lookup_eq_some_iff.mp hv
      obtain ⟨w, hw, hvw⟩ := hno (a.1, v) (by rw [hn]; simp)
      exact ⟨w, hw, members_trans hsame m a ha v w hav hvw⟩
  | .scalar _, .list _, _ | .scalar _, .dict _, _ | .list _, .scalar _, _
  | .list _, .dict _, _ | .dict _, .scalar _, _ | .dict _, .list _, _ =>
    fun h => absurd h (by simp [Doc.eqv])
  | .scalar _, .scalar _, .list _ | .scalar _, .scalar _, .dict _ | .list _, .list _, .scalar _
  | .list _, .list _, .dict _ | .dict _, .dict _, .scalar _ | .dict _, .dict _, .list _ =>
    fun _ h => absurd h (by simp [Doc.eqv])

theorem eqvList_trans (hsame : ∀ a b c, same a b = true → same b c = true → same a c = true) :
    ∀ xs ys zs : List (Doc σ),
      eqvList same xs ys = true → eqvList same ys zs = true → eqvList same xs zs = true
  | [], [], [] => fun _ _ => rfl
  | x :: xs, y :: ys, z :: zs => by
    simp only [eqvList, Bool.and_eq_true]
    rintro ⟨hxy, hxys⟩ ⟨hyz, hyzs⟩
    exact ⟨x.eqv_trans hsame y z hxy hyz, eqvList_trans hsame xs ys zs hxys hyzs⟩
  | [], _ :: _, _ | _ :: _, [], _ => fun h => absurd h (by simp [eqvList])
  | [], [], _ :: _ | _ :: _, _ :: _, [] => fun _ h => absurd h (by simp [eqvList])

theorem members_trans (hsame : ∀ a b c, same a b = true → same b c = true → same a c = true) :
    ∀ m : List (String × Doc σ), ∀ a ∈ m, ∀ v w : Doc σ,
      a.2.eqv same v = true → v.eqv same w = true → a.2.eqv same w = true
  | [], a, ha => absurd ha List.not_mem_nil
  | (_, u) :: m, a, ha => by
    rcases List.mem_cons.mp ha with rfl | ha
    · exact fun v w => u.eqv_trans hsame v w
    · exact members_trans hsame m a ha
end

end Laws

end DocumentTrees
