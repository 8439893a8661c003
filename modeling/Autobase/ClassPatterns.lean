import Mathlib.Computability.Language

/-! # Patterns over classes of letters

Regular patterns whose letters are given by a predicate, the language they stand for, and a
matcher that reads a word letter by letter. -/
namespace ClassPatterns

variable {α : Type*}

inductive Pattern (α : Type*) where
  | none
  | nil
  | one (p : α → Bool)
  | seq (P Q : Pattern α)
  | alt (P Q : Pattern α)
  | star (P : Pattern α)

namespace Pattern

def language : Pattern α → Language α
  | none => 0
  | nil => 1
  | one p => {w | ∃ a, p a = true ∧ w = [a]}
  | seq P Q => P.language * Q.language
  | alt P Q => P.language + Q.language
  | star P => KStar.kstar P.language

def nullable : Pattern α → Bool
  | none => false
  | nil => true
  | one _ => false
  | seq P Q => P.nullable && Q.nullable
  | alt P Q => P.nullable || Q.nullable
  | star _ => true

/-- What is left to match after a letter. -/
def deriv (a : α) : Pattern α → Pattern α
  | none => none
  | nil => none
  | one p => if p a then nil else none
  | seq P Q => if P.nullable then alt (seq (P.deriv a) Q) (Q.deriv a) else seq (P.deriv a) Q
  | alt P Q => alt (P.deriv a) (Q.deriv a)
  | star P => seq (P.deriv a) (star P)

/-- The whole word is matched. -/
def test (P : Pattern α) (w : List α) : Bool := (w.foldl (fun P a => P.deriv a) P).nullable

def plus (P : Pattern α) : Pattern α := seq P (star P)

/-- At least one `P`, with a separator between two of them. -/
def sepBy (P : Pattern α) (separator : α → Bool) : Pattern α :=
  seq P (star (seq (one separator) P))

variable {P Q : Pattern α} {a : α} {w : List α} {p : α → Bool}

theorem mem_one : w ∈ (one p).language ↔ ∃ a, p a = true ∧ w = [a] := Iff.rfl

theorem mem_seq : w ∈ (seq P Q).language ↔
    ∃ u v, w = u ++ v ∧ u ∈ P.language ∧ v ∈ Q.language := by
  simp only [language, Language.mem_mul]
  constructor
  · rintro ⟨u, hu, v, hv, rfl⟩
    exact ⟨u, v, rfl, hu, hv⟩
  · rintro ⟨u, v, rfl, hu, hv⟩
    exact ⟨u, hu, v, hv, rfl⟩

theorem mem_alt : w ∈ (alt P Q).language ↔ w ∈ P.language ∨ w ∈ Q.language := Iff.rfl

theorem mem_star : w ∈ (star P).language ↔
    ∃ ws : List (List α), w = ws.flatten ∧ ∀ u ∈ ws, u ∈ P.language ∧ u ≠ [] :=
  Language.mem_kstar_iff_exists_nonempty

theorem nil_mem_star : [] ∈ (star P).language := mem_star.mpr ⟨[], rfl, by simp⟩

theorem nullable_iff (P : Pattern α) : P.nullable = true ↔ [] ∈ P.language := by
  induction P with
  | none => simp [nullable, language]
  | nil => simp [nullable, language]
  | one p => simp [nullable, mem_one]
  | seq P Q ihP ihQ =>
    simp only [nullable, Bool.and_eq_true, ihP, ihQ, mem_seq, List.nil_eq_append_iff]
    constructor
    · rintro ⟨hP, hQ⟩
      exact ⟨[], [], ⟨rfl, rfl⟩, hP, hQ⟩
    · rintro ⟨u, v, ⟨rfl, rfl⟩, hP, hQ⟩
      exact ⟨hP, hQ⟩
  | alt P Q ihP ihQ => simp only [nullable, Bool.or_eq_true, ihP, ihQ, mem_alt]
  | star P _ => simp [nullable, nil_mem_star]

/-- A word of a star begins with a word of the pattern. -/
theorem cons_mem_star : a :: w ∈ (star P).language ↔
    ∃ u v, w = u ++ v ∧ a :: u ∈ P.language ∧ v ∈ (star P).language := by
  constructor
  · intro h
    obtain ⟨ws, hw, hall⟩ := mem_star.mp h
    cases ws with
    | nil => cases hw
    | cons x ws =>
      obtain ⟨hx, hne⟩ := hall x List.mem_cons_self
      cases x with
      | nil => exact absurd rfl hne
      | cons b u =>
        obtain ⟨rfl, rfl⟩ := List.cons.inj hw
        exact ⟨u, ws.flatten, rfl, hx,
          mem_star.mpr ⟨ws, rfl, fun y hy => hall y (List.mem_cons_of_mem _ hy)⟩⟩
  · rintro ⟨u, v, rfl, hu, hv⟩
    obtain ⟨ws, rfl, hall⟩ := mem_star.mp hv
    refine mem_star.mpr ⟨(a :: u) :: ws, rfl, fun y hy => ?_⟩
    rcases List.mem_cons.mp hy with rfl | hy
    · exact ⟨hu, List.cons_ne_nil a u⟩
    · exact hall y hy

theorem deriv_iff (P : Pattern α) (a : α) (w : List α) :
    w ∈ (P.deriv a).language ↔ a :: w ∈ P.language := by
  induction P generalizing w with
  | none => simp [deriv, language]
  | nil => simp [deriv, language, Language.mem_one]
  | one p =>
    rw [mem_one, deriv]
    by_cases hp : p a = true
    · rw [if_pos hp]
      constructor
      · intro h
        obtain rfl : w = [] := h
        exact ⟨a, hp, rfl⟩
      · rintro ⟨b, -, hw⟩
        exact (List.cons.inj hw).2
    · rw [if_neg hp]
      refine iff_of_false (Language.notMem_zero w) ?_
      rintro ⟨b, hb, hw⟩
      exact hp ((List.cons.inj hw).1 ▸ hb)
  | alt P Q ihP ihQ => simp only [deriv, mem_alt, ihP, ihQ]
  | star P ih => simp only [deriv, mem_seq, ih, cons_mem_star]
  | seq P Q ihP ihQ =>
    have hfirst : (∃ u v, w = u ++ v ∧ a :: u ∈ P.language ∧ v ∈ Q.language) ∨
        [] ∈ P.language ∧ a :: w ∈ Q.language ↔ a :: w ∈ (seq P Q).language := by
      rw [mem_seq]
      constructor
      · rintro (⟨u, v, rfl, hu, hv⟩ | ⟨hP, hQ⟩)
        · exact ⟨a :: u, v, rfl, hu, hv⟩
        · exact ⟨[], a :: w, rfl, hP, hQ⟩
      · rintro ⟨x, v, hw, hx, hv⟩
        cases x with
        | nil => exact Or.inr ⟨hx, by rw [hw]; exact hv⟩
        | cons b u =>
          obtain ⟨rfl, rfl⟩ := List.cons.inj hw
          exact Or.inl ⟨u, v, rfl, hx, hv⟩
    rw [← hfirst, ← nullable_iff, deriv]
    by_cases hn : P.nullable = true
    · simp only [hn, if_true, mem_alt, mem_seq, ihP, ihQ, true_and]
    · simp only [hn, Bool.false_eq_true, if_false, mem_seq, ihP, false_and, or_false]

/-- The matcher decides the language. -/
theorem test_iff (P : Pattern α) (w : List α) : P.test w = true ↔ w ∈ P.language := by
  induction w generalizing P with
  | nil => exact nullable_iff P
  | cons a w ih => exact (ih (P.deriv a)).trans (deriv_iff P a w)

theorem mem_plus_one : w ∈ (plus (one p)).language ↔ w ≠ [] ∧ ∀ a ∈ w, p a = true := by
  have hstar : ∀ w, w ∈ (star (one p)).language ↔ ∀ a ∈ w, p a = true := by
    intro w
    induction w with
    | nil => simp [nil_mem_star]
    | cons a w ih =>
      rw [cons_mem_star, List.forall_mem_cons, ← ih]
      constructor
      · rintro ⟨u, v, rfl, ⟨b, hb, hu⟩, hv⟩
        obtain ⟨rfl, rfl⟩ := List.cons.inj hu
        exact ⟨hb, hv⟩
      · rintro ⟨ha, hw⟩
        exact ⟨[], w, rfl, ⟨a, ha, rfl⟩, hw⟩
  rw [plus, mem_seq]
  constructor
  · rintro ⟨u, v, rfl, ⟨a, ha, rfl⟩, hv⟩
    exact ⟨List.cons_ne_nil a v, List.forall_mem_cons.mpr ⟨ha, (hstar v).mp hv⟩⟩
  · rintro ⟨hne, hall⟩
    obtain ⟨a, v, rfl⟩ := List.exists_cons_of_ne_nil hne
    obtain ⟨ha, hv⟩ := List.forall_mem_cons.mp hall
    exact ⟨[a], v, rfl, ⟨a, ha, rfl⟩, (hstar v).mpr hv⟩

/-- Where no word of the pattern holds a separator, splitting gives the words back. -/
theorem mem_of_sepBy {separator : α → Bool}
    (hP : ∀ u ∈ P.language, ∀ a ∈ u, separator a = false) (hw : w ∈ (sepBy P separator).language) :
    ∀ u ∈ w.splitOnP separator, u ∈ P.language := by
  obtain ⟨x, y, rfl, hx, hy⟩ := mem_seq.mp hw
  obtain ⟨ws, rfl, hall⟩ := mem_star.mp hy
  clear hw hy
  induction ws generalizing x with
  | nil =>
    intro u hu
    rw [List.flatten_nil, List.append_nil, List.splitOnP_eq_singleton (hP x hx)] at hu
    exact List.mem_singleton.mp hu ▸ hx
  | cons t ws ih =>
    obtain ⟨ht, htail⟩ := List.forall_mem_cons.mp hall
    obtain ⟨s, l, rfl, ⟨b, hb, rfl⟩, hl⟩ := mem_seq.mp ht.1
    intro u hu
    rw [List.flatten_cons, List.append_assoc, List.singleton_append,
      List.splitOnP_append_cons_of_forall_mem (hP x hx) b hb] at hu
    rcases List.mem_cons.mp hu with rfl | hu
    · exact hx
    · exact ih l hl htail u hu

end Pattern

end ClassPatterns
