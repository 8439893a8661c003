import Autobase.JsonText

/-! # Replacement by key

A replacement table names keys and the texts that stand for their values. A full mask replaces
the value of a named key wherever it occurs. A shallow replacement descends through objects and
through the objects that are elements of an array, and passes by an array inside of an array. -/
namespace JsonMasking

open JsonText

abbrev Replacements := List (String × String)

abbrev Members := List (String × Json)

variable (R : Replacements)

def replacementOr (key : String) (v : Json) : Json :=
  match R.lookup key with
  | some replacement => .str replacement
  | none => v

mutual
/-- Every value under a named key, at any depth. -/
def mask : Json → Json
  | .arr xs => .arr (maskElements xs)
  | .obj m => .obj (maskMembers m)
  | v => v

def maskElements : List Json → List Json
  | [] => []
  | x :: xs => mask x :: maskElements xs

def maskMembers : Members → Members
  | [] => []
  | (k, v) :: m => (k, replacementOr R k (mask v)) :: maskMembers m
end

mutual
def replaceFields : Members → Members
  | [] => []
  | (k, v) :: m => (k, replacementOr R k (replaceValue v)) :: replaceFields m

def replaceValue : Json → Json
  | .obj m => .obj (replaceFields m)
  | .arr xs => .arr (replaceSlice xs)
  | v => v

def replaceSlice : List Json → List Json
  | [] => []
  | x :: xs => replaceElement x :: replaceSlice xs

/-- Only an object is looked into. -/
def replaceElement : Json → Json
  | .obj m => .obj (replaceFields m)
  | v => v
end

mutual
/-- The arrays that a shallow replacement passes by. -/
def passedFields : Members → List (List Json)
  | [] => []
  | (k, v) :: m =>
    (match R.lookup k with
      | some _ => []
      | none => passedValue v) ++ passedFields m

def passedValue : Json → List (List Json)
  | .obj m => passedFields m
  | .arr xs => passedSlice xs
  | _ => []

def passedSlice : List Json → List (List Json)
  | [] => []
  | x :: xs => passedElement x ++ passedSlice xs

def passedElement : Json → List (List Json)
  | .obj m => passedFields m
  | .arr xs => [xs]
  | _ => []
end

variable {R}

theorem replacementOr_named {k r : String} (h : R.lookup k = some r) (v : Json) :
    replacementOr R k v = .str r := by
  simp only [replacementOr, h]

theorem replacementOr_unnamed {k : String} (h : R.lookup k = none) (v : Json) :
    replacementOr R k v = v := by
  simp only [replacementOr, h]

theorem maskMembers_eq_map (m : Members) :
    maskMembers R m = m.map fun p => (p.1, replacementOr R p.1 (mask R p.2)) := by
  induction m with
  | nil => rfl
  | cons p m ih => simp only [maskMembers, List.map_cons, ih]

/-! ## What a shallow replacement keeps -/

mutual
/-- A mask covers a replacement. -/
theorem maskMembers_replaceFields : ∀ m : Members,
    maskMembers R (replaceFields R m) = maskMembers R m
  | [] => rfl
  | (k, v) :: m => by
    have hv : replacementOr R k (mask R (replacementOr R k (replaceValue R v))) =
        replacementOr R k (mask R v) := by
      cases h : R.lookup k with
      | some r => rw [replacementOr_named h, replacementOr_named h]
      | none =>
        rw [replacementOr_unnamed h, replacementOr_unnamed h, replacementOr_unnamed h]
        exact mask_replaceValue v
    simp only [replaceFields, maskMembers, hv, maskMembers_replaceFields m]

theorem mask_replaceValue : ∀ v : Json, mask R (replaceValue R v) = mask R v
  | .null => rfl
  | .bool _ => rfl
  | .num _ => rfl
  | .str _ => rfl
  | .arr xs => by simp only [replaceValue, mask, maskElements_replaceSlice xs]
  | .obj m => by simp only [replaceValue, mask, maskMembers_replaceFields m]

theorem maskElements_replaceSlice : ∀ xs : List Json,
    maskElements R (replaceSlice R xs) = maskElements R xs
  | [] => rfl
  | x :: xs => by
    simp only [replaceSlice, maskElements, mask_replaceElement x, maskElements_replaceSlice xs]

theorem mask_replaceElement : ∀ v : Json, mask R (replaceElement R v) = mask R v
  | .null => rfl
  | .bool _ => rfl
  | .num _ => rfl
  | .str _ => rfl
  | .arr _ => rfl
  | .obj m => by simp only [replaceElement, mask, maskMembers_replaceFields m]
end

mutual
theorem passedFields_replaceFields : ∀ m : Members,
    passedFields R (replaceFields R m) = passedFields R m
  | [] => rfl
  | (k, v) :: m => by
    simp only [replaceFields, passedFields, passedFields_replaceFields m]
    cases h : R.lookup k with
    | some r => rfl
    | none => simp only [replacementOr_unnamed h, passedValue_replaceValue v]

theorem passedValue_replaceValue : ∀ v : Json, passedValue R (replaceValue R v) = passedValue R v
  | .null => rfl
  | .bool _ => rfl
  | .num _ => rfl
  | .str _ => rfl
  | .arr xs => by simp only [replaceValue, passedValue, passedSlice_replaceSlice xs]
  | .obj m => by simp only [replaceValue, passedValue, passedFields_replaceFields m]

theorem passedSlice_replaceSlice : ∀ xs : List Json,
    passedSlice R (replaceSlice R xs) = passedSlice R xs
  | [] => rfl
  | x :: xs => by
    simp only [replaceSlice, passedSlice, passedElement_replaceElement x,
      passedSlice_replaceSlice xs]

theorem passedElement_replaceElement : ∀ v : Json,
    passedElement R (replaceElement R v) = passedElement R v
  | .null => rfl
  | .bool _ => rfl
  | .num _ => rfl
  | .str _ => rfl
  | .arr _ => rfl
  | .obj m => by simp only [replaceElement, passedElement, passedFields_replaceFields m]
end

mutual
/-- The places of the arrays are not under named keys. -/
theorem passedFields_length : ∀ m : Members,
    (passedFields R (maskMembers R m)).length = (passedFields R m).length
  | [] => rfl
  | (k, v) :: m => by
    simp only [maskMembers, passedFields, List.length_append, passedFields_length m]
    cases h : R.lookup k with
    | some r => rfl
    | none => simp only [replacementOr_unnamed h, passedValue_length v]

theorem passedValue_length : ∀ v : Json,
    (passedValue R (mask R v)).length = (passedValue R v).length
  | .null => rfl
  | .bool _ => rfl
  | .num _ => rfl
  | .str _ => rfl
  | .arr xs => passedSlice_length xs
  | .obj m => passedFields_length m

theorem passedSlice_length : ∀ xs : List Json,
    (passedSlice R (maskElements R xs)).length = (passedSlice R xs).length
  | [] => rfl
  | x :: xs => by
    simp only [maskElements, passedSlice, List.length_append, passedElement_length x,
      passedSlice_length xs]

theorem passedElement_length : ∀ v : Json,
    (passedElement R (mask R v)).length = (passedElement R v).length
  | .null => rfl
  | .bool _ => rfl
  | .num _ => rfl
  | .str _ => rfl
  | .arr _ => rfl
  | .obj m => passedFields_length m
end

/-! ## Two values -/

/-- Two lists of passed arrays come apart at the same place. -/
theorem passed_append {α : Type} {f : α → List (List Json)} {g : α → α}
    (hlength : ∀ a, (f (g a)).length = (f a).length) {a b : α} (hg : g a = g b)
    {s t : List (List Json)} (h : f a ++ s = f b ++ t) : f a = f b ∧ s = t :=
  List.append_inj h (by rw [← hlength a, hg, hlength b])

/-- Neither an array nor an object. -/
def Leaf : Json → Prop
  | .arr _ => False
  | .obj _ => False
  | _ => True

theorem eq_of_mask_leaf {v w : Json} (h : mask R v = mask R w) (hv : Leaf v) : v = w := by
  cases v <;> cases w <;> simp_all [mask, Leaf]

theorem mask_arr {xs : List Json} {w : Json} (h : mask R (.arr xs) = mask R w) :
    ∃ ys, w = .arr ys ∧ maskElements R xs = maskElements R ys := by
  cases w with
  | arr ys => exact ⟨ys, rfl, Json.arr.inj h⟩
  | _ => cases h

theorem mask_obj {m : Members} {w : Json} (h : mask R (.obj m) = mask R w) :
    ∃ n, w = .obj n ∧ maskMembers R m = maskMembers R n := by
  cases w with
  | obj n => exact ⟨n, rfl, Json.obj.inj h⟩
  | _ => cases h

mutual
/-- Values with one mask are replaced alike when they hold the same passed arrays. -/
theorem replaceFields_congr : ∀ {m n : Members}, maskMembers R m = maskMembers R n →
    passedFields R m = passedFields R n → replaceFields R m = replaceFields R n
  | [], [], _, _ => rfl
  | [], _ :: _, hmask, _ => nomatch hmask
  | _ :: _, [], hmask, _ => nomatch hmask
  | (k, v) :: m, (l, w) :: n, hmask, hpassed => by
    simp only [maskMembers, List.cons.injEq, Prod.mk.injEq] at hmask
    obtain ⟨⟨rfl, hvalue⟩, hrest⟩ := hmask
    simp only [passedFields] at hpassed
    simp only [replaceFields]
    cases h : R.lookup k with
    | some r =>
      simp only [h, List.nil_append] at hpassed
      rw [replacementOr_named h, replacementOr_named h, replaceFields_congr hrest hpassed]
    | none =>
      rw [replacementOr_unnamed h, replacementOr_unnamed h] at hvalue
      simp only [h] at hpassed
      obtain ⟨hv, hm⟩ := passed_append passedValue_length hvalue hpassed
      rw [replacementOr_unnamed h, replacementOr_unnamed h, replaceValue_congr hvalue hv,
        replaceFields_congr hrest hm]

theorem replaceValue_congr : ∀ {v w : Json}, mask R v = mask R w →
    passedValue R v = passedValue R w → replaceValue R v = replaceValue R w
  | .null, _, hmask, _ => by rw [eq_of_mask_leaf hmask trivial]
  | .bool _, _, hmask, _ => by rw [eq_of_mask_leaf hmask trivial]
  | .num _, _, hmask, _ => by rw [eq_of_mask_leaf hmask trivial]
  | .str _, _, hmask, _ => by rw [eq_of_mask_leaf hmask trivial]
  | .arr xs, w, hmask, hpassed => by
    obtain ⟨ys, rfl, hys⟩ := mask_arr hmask
    simp only [replaceValue, replaceSlice_congr hys hpassed]
  | .obj m, w, hmask, hpassed => by
    obtain ⟨n, rfl, hn⟩ := mask_obj hmask
    simp only [replaceValue, replaceFields_congr hn hpassed]

theorem replaceSlice_congr : ∀ {xs ys : List Json}, maskElements R xs = maskElements R ys →
    passedSlice R xs = passedSlice R ys → replaceSlice R xs = replaceSlice R ys
  | [], [], _, _ => rfl
  | [], _ :: _, hmask, _ => nomatch hmask
  | _ :: _, [], hmask, _ => nomatch hmask
  | x :: xs, y :: ys, hmask, hpassed => by
    simp only [maskElements, List.cons.injEq] at hmask
    simp only [passedSlice] at hpassed
    obtain ⟨hx, hxs⟩ := passed_append passedElement_length hmask.1 hpassed
    simp only [replaceSlice, replaceElement_congr hmask.1 hx, replaceSlice_congr hmask.2 hxs]

theorem replaceElement_congr : ∀ {v w : Json}, mask R v = mask R w →
    passedElement R v = passedElement R w → replaceElement R v = replaceElement R w
  | .null, _, hmask, _ => by rw [eq_of_mask_leaf hmask trivial]
  | .bool _, _, hmask, _ => by rw [eq_of_mask_leaf hmask trivial]
  | .num _, _, hmask, _ => by rw [eq_of_mask_leaf hmask trivial]
  | .str _, _, hmask, _ => by rw [eq_of_mask_leaf hmask trivial]
  | .arr xs, w, hmask, hpassed => by
    obtain ⟨ys, rfl, -⟩ := mask_arr hmask
    rw [(List.cons.inj hpassed).1]
  | .obj m, w, hmask, hpassed => by
    obtain ⟨n, rfl, hn⟩ := mask_obj hmask
    simp only [replaceElement, replaceFields_congr hn hpassed]
end

/-- The replaced members show the mask and the passed arrays, and nothing else. -/
theorem replaceFields_eq_iff {m n : Members} : replaceFields R m = replaceFields R n ↔
    maskMembers R m = maskMembers R n ∧ passedFields R m = passedFields R n := by
  constructor
  · intro h
    constructor
    · rw [← maskMembers_replaceFields m, h, maskMembers_replaceFields]
    · rw [← passedFields_replaceFields m, h, passedFields_replaceFields]
  · rintro ⟨hmask, hpassed⟩
    exact replaceFields_congr hmask hpassed

end JsonMasking
