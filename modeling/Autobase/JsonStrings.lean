import Autobase.JsonText

/-! # The strings of a value

The keys and the string leaves of a value, and what a rendered text takes from them: all
other characters of a text are ASCII. -/
namespace JsonStrings

open JsonText

mutual
def texts : Json → List String
  | .str s => [s]
  | .arr xs => elementTexts xs
  | .obj kvs => memberTexts kvs
  | _ => []

def elementTexts : List Json → List String
  | [] => []
  | x :: xs => texts x ++ elementTexts xs

def memberTexts : List (String × Json) → List String
  | [] => []
  | (k, v) :: kvs => k :: (texts v ++ memberTexts kvs)
end

mutual
def mapText (f : String → String) : Json → Json
  | .str s => .str (f s)
  | .arr xs => .arr (mapElements f xs)
  | .obj kvs => .obj (mapMembers f kvs)
  | v => v

def mapElements (f : String → String) : List Json → List Json
  | [] => []
  | x :: xs => mapText f x :: mapElements f xs

def mapMembers (f : String → String) : List (String × Json) → List (String × Json)
  | [] => []
  | (k, v) :: kvs => (f k, mapText f v) :: mapMembers f kvs
end

section Fixed

variable {f : String → String}

mutual
theorem mapText_eq_self : ∀ v : Json, mapText f v = v ↔ ∀ s ∈ texts v, f s = s
  | .null => by simp [mapText, texts]
  | .bool _ => by simp [mapText, texts]
  | .num _ => by simp [mapText, texts]
  | .str s => by simp [mapText, texts]
  | .arr xs => by
    simp only [mapText, texts, Json.arr.injEq]
    exact mapElements_eq_self xs
  | .obj kvs => by
    simp only [mapText, texts, Json.obj.injEq]
    exact mapMembers_eq_self kvs

theorem mapElements_eq_self : ∀ xs : List Json,
    mapElements f xs = xs ↔ ∀ s ∈ elementTexts xs, f s = s
  | [] => by simp [mapElements, elementTexts]
  | x :: xs => by
    simp only [mapElements, elementTexts, List.cons.injEq, List.forall_mem_append]
    exact and_congr (mapText_eq_self x) (mapElements_eq_self xs)

theorem mapMembers_eq_self : ∀ kvs : List (String × Json),
    mapMembers f kvs = kvs ↔ ∀ s ∈ memberTexts kvs, f s = s
  | [] => by simp [mapMembers, memberTexts]
  | (k, v) :: kvs => by
    simp only [mapMembers, memberTexts, List.cons.injEq, Prod.mk.injEq, List.forall_mem_cons,
      List.forall_mem_append, and_assoc]
    exact and_congr Iff.rfl (and_congr (mapText_eq_self v) (mapMembers_eq_self kvs))
end

end Fixed

/-! ## The characters of a text -/

theorem blank_ascii {c : Char} (h : isBlank c = true) : c.toNat < 0x80 := by
  simp only [isBlank, Bool.or_eq_true, decide_eq_true_eq] at h
  rcases h with ((rfl | rfl) | rfl) | rfl <;> decide

theorem digitChar_ascii (d : Digit) : (digitChar d).toNat < 0x80 := by
  revert d
  decide

theorem digits_ascii (ds : List Digit) : ∀ c ∈ ds.map digitChar, c.toNat < 0x80 := by
  intro c hc
  obtain ⟨d, -, rfl⟩ := List.mem_map.mp hc
  exact digitChar_ascii d

theorem exponent_ascii (e : Exponent) : ∀ c ∈ e.text, c.toNat < 0x80 := by
  have hsign : ∀ c ∈ signText e.sign, c.toNat < 0x80 := by
    rcases e.sign with _ | _ | _ <;> simp [signText]
  intro c hc
  rcases List.mem_cons.mp hc with rfl | hc
  · split <;> decide
  · rcases List.mem_append.mp hc with hc | hc
    · exact hsign c hc
    · exact digits_ascii _ c hc

theorem number_ascii (x : Number) : ∀ c ∈ x.text, c.toNat < 0x80 := by
  have hminus : ∀ c ∈ if x.negative then ['-'] else [], c.toNat < 0x80 := by
    cases x.negative <;> simp
  have hfraction : ∀ c ∈ fractionText x.fraction, c.toNat < 0x80 := by
    intro c hc
    cases hx : x.fraction with
    | none => simp [hx, fractionText] at hc
    | some p =>
      rw [hx] at hc
      rcases List.mem_cons.mp hc with rfl | hc
      · decide
      · exact digits_ascii _ c hc
  have hexponent : ∀ c ∈ (x.exponent.map Exponent.text).getD [], c.toNat < 0x80 := by
    intro c hc
    cases hx : x.exponent with
    | none => simp [hx] at hc
    | some e =>
      rw [hx] at hc
      exact exponent_ascii e c hc
  intro c hc
  rcases List.mem_append.mp hc with hc | hc
  · exact hminus c hc
  rcases List.mem_append.mp hc with hc | hc
  · exact digits_ascii _ c hc
  rcases List.mem_append.mp hc with hc | hc
  · exact hfraction c hc
  · exact hexponent c hc

/-! ## Texts and their strings -/

theorem subset_joined {sep t : List Char} {ts : List (List Char)} (h : t ∈ ts) :
    t ⊆ joined sep ts := by
  induction ts with
  | nil => cases h
  | cons u ts ih =>
    cases ts with
    | nil =>
      rw [List.mem_singleton.mp h]
      exact List.Subset.refl _
    | cons w ts =>
      rcases List.mem_cons.mp h with rfl | h
      · exact List.subset_append_left _ _
      · exact List.Subset.trans (ih h) (List.Subset.trans (List.subset_append_right _ _)
          (List.subset_append_right _ _))

theorem subset_bracketed {L : Layout} {depth : ℕ} {opening closing : Char} {t : List Char}
    {ts : List (List Char)} (h : t ∈ ts) : t ⊆ bracketed L depth opening closing ts := by
  have hne : ts ≠ [] := List.ne_nil_of_mem h
  rw [bracketed, if_neg hne]
  intro c hc
  refine List.mem_cons_of_mem _ (List.mem_append_right _ (List.mem_append_left _ ?_))
  exact subset_joined h hc

mutual
theorem quoted_subset (L : Layout) : ∀ (v : Json) (depth : ℕ), ∀ s ∈ texts v,
    quoted L s ⊆ render L depth v
  | .null, _ => by simp [texts]
  | .bool _, _ => by simp [texts]
  | .num _, _ => by simp [texts]
  | .str s, depth => by simp [texts, render]
  | .arr xs, depth => by
    intro s hs
    obtain ⟨t, ht, hsub⟩ := quoted_subset_elements L xs (depth + 1) s hs
    exact List.Subset.trans hsub (subset_bracketed ht)
  | .obj kvs, depth => by
    intro s hs
    obtain ⟨t, ht, hsub⟩ := quoted_subset_members L kvs (depth + 1) s hs
    exact List.Subset.trans hsub (subset_bracketed ht)

theorem quoted_subset_elements (L : Layout) : ∀ (xs : List Json) (depth : ℕ),
    ∀ s ∈ elementTexts xs, ∃ t ∈ renderElements L depth xs, quoted L s ⊆ t
  | [], _ => by simp [elementTexts]
  | x :: xs, depth => by
    intro s hs
    simp only [renderElements, List.exists_mem_cons_iff]
    rcases List.mem_append.mp hs with hs | hs
    · exact Or.inl (quoted_subset L x depth s hs)
    · exact Or.inr (quoted_subset_elements L xs depth s hs)

theorem quoted_subset_members (L : Layout) : ∀ (kvs : List (String × Json)) (depth : ℕ),
    ∀ s ∈ memberTexts kvs, ∃ t ∈ renderMembers L depth kvs, quoted L s ⊆ t
  | [], _ => by simp [memberTexts]
  | (k, v) :: kvs, depth => by
    intro s hs
    simp only [renderMembers, List.exists_mem_cons_iff]
    rcases List.mem_cons.mp hs with rfl | hs
    · exact Or.inl (List.subset_append_left _ _)
    rcases List.mem_append.mp hs with hs | hs
    · refine Or.inl (List.Subset.trans (quoted_subset L v depth s hs) ?_)
      intro c hc
      exact List.mem_append_right _ (List.mem_cons_of_mem _ (List.mem_append_right _ hc))
    · exact Or.inr (quoted_subset_members L kvs depth s hs)
end

/-- A relation of texts that is kept by joining them, and by texts of ASCII alone. -/
structure TextCongruence (R : List Char → List Char → Prop) : Prop where
  append : ∀ {x x' y y'}, R x x' → R y y' → R (x ++ y) (x' ++ y')
  ascii : ∀ {x}, (∀ c ∈ x, c.toNat < 0x80) → R x x

section Related

variable {L : Layout} {f : String → String} {R : List Char → List Char → Prop}

theorem related_joined (hR : TextCongruence R) {sep : List Char}
    (hsep : ∀ c ∈ sep, c.toNat < 0x80) {ts us : List (List Char)} (h : List.Forall₂ R ts us) :
    R (joined sep ts) (joined sep us) := by
  induction h with
  | nil => exact hR.ascii (by simp [joined])
  | @cons t u ts us htu hrest ih =>
    cases hrest with
    | nil => exact htu
    | cons ht hrest => exact hR.append htu (hR.append (hR.ascii hsep) ih)

theorem related_bracketed (hR : TextCongruence R) (depth : ℕ) {opening closing : Char}
    (ho : opening.toNat < 0x80) (hc : closing.toNat < 0x80) {ts us : List (List Char)}
    (h : List.Forall₂ R ts us) :
    R (bracketed L depth opening closing ts) (bracketed L depth opening closing us) := by
  have hgap : ∀ n, ∀ c ∈ L.gap n, c.toNat < 0x80 := fun n c hc => blank_ascii (L.gap_blank n c hc)
  cases h with
  | nil =>
    apply hR.ascii
    simp [bracketed, ho, hc]
  | cons ht hrest =>
    simp only [bracketed, reduceCtorEq, if_false]
    have hfirst : R [opening] [opening] := hR.ascii (by simpa using ho)
    refine hR.append hfirst (hR.append (hR.ascii (hgap _)) (hR.append ?_ (hR.ascii ?_)))
    · refine related_joined hR ?_ (List.Forall₂.cons ht hrest)
      intro c hc
      rcases List.mem_cons.mp hc with rfl | hc
      · decide
      · exact hgap _ c hc
    · intro c hmem
      rcases List.mem_append.mp hmem with hmem | hmem
      · exact hgap _ c hmem
      · rw [List.mem_singleton.mp hmem]
        exact hc

mutual
/-- The texts of two values are related when their strings are. -/
theorem related_render (hR : TextCongruence R) : ∀ (v : Json) (depth : ℕ),
    (∀ s ∈ texts v, R (quoted L s) (quoted L (f s))) →
      R (render L depth v) (render L depth (mapText f v))
  | .null, _, _ => hR.ascii (by simp [render])
  | .bool true, _, _ => hR.ascii (by simp [render])
  | .bool false, _, _ => hR.ascii (by simp [render])
  | .num x, _, _ => hR.ascii (by simpa [render] using number_ascii x)
  | .str s, _, h => h s (by simp [texts])
  | .arr xs, depth, h =>
    related_bracketed hR depth (by decide) (by decide) (related_elements hR xs _ h)
  | .obj kvs, depth, h =>
    related_bracketed hR depth (by decide) (by decide) (related_members hR kvs _ h)

theorem related_elements (hR : TextCongruence R) : ∀ (xs : List Json) (depth : ℕ),
    (∀ s ∈ elementTexts xs, R (quoted L s) (quoted L (f s))) →
      List.Forall₂ R (renderElements L depth xs) (renderElements L depth (mapElements f xs))
  | [], _, _ => List.Forall₂.nil
  | x :: xs, depth, h =>
    List.Forall₂.cons (related_render hR x depth fun s hs => h s (List.mem_append_left _ hs))
      (related_elements hR xs depth fun s hs => h s (List.mem_append_right _ hs))

theorem related_members (hR : TextCongruence R) : ∀ (kvs : List (String × Json)) (depth : ℕ),
    (∀ s ∈ memberTexts kvs, R (quoted L s) (quoted L (f s))) →
      List.Forall₂ R (renderMembers L depth kvs) (renderMembers L depth (mapMembers f kvs))
  | [], _, _ => List.Forall₂.nil
  | (k, v) :: kvs, depth, h => by
    have hvalue := related_render hR v depth fun s hs =>
      h s (List.mem_cons_of_mem _ (List.mem_append_left _ hs))
    have hcolon : R (':' :: L.afterColon) (':' :: L.afterColon) := by
      apply hR.ascii
      intro c hc
      rcases List.mem_cons.mp hc with rfl | hc
      · decide
      · exact blank_ascii (L.colon_blank c hc)
    refine List.Forall₂.cons ?_ (related_members hR kvs depth fun s hs =>
      h s (List.mem_cons_of_mem _ (List.mem_append_right _ hs)))
    exact hR.append (h k List.mem_cons_self) (hR.append hcolon hvalue)
end

end Related

/-- A property of characters that all of ASCII has holds of a text when it holds of its
strings. -/
theorem forall_render_iff (L : Layout) {P : Char → Prop} (hP : ∀ c, c.toNat < 0x80 → P c)
    (v : Json) (depth : ℕ) :
    (∀ c ∈ render L depth v, P c) ↔ ∀ s ∈ texts v, ∀ c ∈ quoted L s, P c := by
  constructor
  · intro h s hs c hc
    exact h c (quoted_subset L v depth s hs hc)
  · intro h
    have hR : TextCongruence fun x _ => ∀ c ∈ x, P c := by
      refine ⟨?_, fun hx c hc => hP c (hx c hc)⟩
      intro x x' y y' hx hy c hc
      rcases List.mem_append.mp hc with hc | hc
      · exact hx c hc
      · exact hy c hc
    exact related_render (f := id) hR v depth h

end JsonStrings
