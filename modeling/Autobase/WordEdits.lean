import Mathlib.Data.List.Infix
import Mathlib.Algebra.Order.Group.Nat
import Autobase.LineEdits

/-! # Replacing words in a text

Words of a set that do not overlap can be replaced by each other wherever they stand. Such a text
is spelled by symbols and words, and a replacement is a map on these. -/
namespace WordEdits

open LineEdits

variable {α ι : Type*}

/-- The expression that matches just the word. -/
def literal [DecidableEq α] (w : List α) : Matcher α :=
  fun text => if w.isPrefixOf text then some w.length else none

/-- A text as symbols and words. -/
abbrev Pieces (α ι : Type*) := List (α ⊕ ι)

def spell (word : ι → List α) : Pieces α ι → List α
  | [] => []
  | .inl c :: ps => c :: spell word ps
  | .inr i :: ps => word i ++ spell word ps

/-- No word begins at a symbol. -/
def Exposed (word : ι → List α) : Pieces α ι → Prop
  | [] => True
  | .inl c :: ps => (∀ i, ¬ word i <+: c :: spell word ps) ∧ Exposed word ps
  | .inr _ :: ps => Exposed word ps

/-- No word begins with another one, and none begins within another one. -/
structure Apart (word : ι → List α) : Prop where
  nonempty : ∀ i, word i ≠ []
  distinct : ∀ i j, word i <+: word j → i = j
  within : ∀ i j s, s ≠ [] → s <:+ word i → s ≠ word i → ¬ s <+: word j ∧ ¬ word j <+: s

def renamed (f : ι → ι) (ps : Pieces α ι) : Pieces α ι := ps.map (Sum.map id f)

variable {word : ι → List α} {ps qs : Pieces α ι} {text : List α} {c : α} {i j : ι} {f : ι → ι}

@[simp] theorem renamed_nil : renamed f ([] : Pieces α ι) = [] := rfl

@[simp] theorem renamed_symbol : renamed f (.inl c :: ps) = .inl c :: renamed f ps := rfl

@[simp] theorem renamed_word : renamed f (.inr i :: ps) = .inr (f i) :: renamed f ps := rfl

theorem renamed_renamed (g : ι → ι) : renamed g (renamed f ps) = renamed (g ∘ f) ps := by
  rw [renamed, renamed, List.map_map]
  exact List.map_congr_left fun a _ => by cases a <;> rfl

theorem renamed_eq_self : renamed f ps = ps ↔ ∀ i, .inr i ∈ ps → f i = i := by
  induction ps with
  | nil => simp
  | cons p ps ih =>
    cases p with
    | inl c => simp [ih]
    | inr k =>
      rw [renamed_word, List.cons.injEq, ih]
      simp

/-- Only one of two words can begin at a place, and none within the other. -/
theorem Apart.eq_of_prefix (hw : Apart word) (hi : word i <+: text) (hj : word j <+: text) :
    i = j := by
  rcases List.prefix_or_prefix_of_prefix hi hj with h | h
  · exact hw.distinct i j h
  · exact (hw.distinct j i h).symm

theorem Apart.not_within (hw : Apart word) {s rest : List α} (hne : s ≠ []) (hs : s <:+ word i)
    (hproper : s ≠ word i) : ¬ word j <+: s ++ rest := by
  intro h
  rcases List.prefix_or_prefix_of_prefix h (List.prefix_append s rest) with h | h
  · exact (hw.within i j s hne hs hproper).2 h
  · exact (hw.within i j s hne hs hproper).1 h

/-- The rest of a word is in front of the text after renaming only where it was before. -/
theorem Apart.prefix_of_renamed (hw : Apart word) {s : List α} (hs : s <:+ word i)
    (hproper : s ≠ word i) (h : s <+: spell word (renamed f ps)) : s <+: spell word ps := by
  induction ps generalizing s with
  | nil => exact h
  | cons p ps ih =>
    cases s with
    | nil => exact List.nil_prefix
    | cons a s =>
      cases p with
      | inl c =>
        obtain ⟨hac, h⟩ := List.cons_prefix_cons.mp h
        have hshort : s ≠ word i := by
          intro he
          have hlength := hs.length_le
          rw [he, List.length_cons] at hlength
          omega
        exact List.cons_prefix_cons.mpr
          ⟨hac, ih ((List.suffix_cons a s).trans hs) hshort h⟩
      | inr k =>
        have hwithin := hw.within i (f k) (a :: s) (List.cons_ne_nil _ _) hs hproper
        rcases List.prefix_or_prefix_of_prefix h (List.prefix_append (word (f k)) _) with h | h
        · exact absurd h hwithin.1
        · exact absurd h hwithin.2

theorem Apart.exposed_renamed (hw : Apart word) (h : Exposed word ps) :
    Exposed word (renamed f ps) := by
  induction ps with
  | nil => trivial
  | cons p ps ih =>
    cases p with
    | inl c =>
      refine ⟨fun i hi => h.1 i ?_, ih h.2⟩
      obtain ⟨a, s, hs⟩ := List.exists_cons_of_ne_nil (hw.nonempty i)
      rw [hs] at hi ⊢
      obtain ⟨hac, hi⟩ := List.cons_prefix_cons.mp hi
      refine List.cons_prefix_cons.mpr ⟨hac, ?_⟩
      refine hw.prefix_of_renamed (i := i) (hs ▸ List.suffix_cons a s) ?_ hi
      rintro rfl
      have := congrArg List.length hs
      simp at this
    | inr k => exact ih h

/-- Every text is spelled by exposed pieces. -/
theorem Apart.exists_pieces (hw : Apart word) (text : List α) :
    ∃ ps, Exposed word ps ∧ spell word ps = text := by
  induction hn : text.length using Nat.strongRecOn generalizing text with
  | ind n ih =>
    cases text with
    | nil => exact ⟨[], trivial, rfl⟩
    | cons c cs =>
      by_cases h : ∃ i, word i <+: c :: cs
      · obtain ⟨i, rest, hrest⟩ := h
        have hpos := List.length_pos_iff.mpr (hw.nonempty i)
        have hlength := congrArg List.length hrest
        rw [List.length_append] at hlength
        obtain ⟨ps, hexposed, hps⟩ := ih rest.length (by omega) rest rfl
        exact ⟨.inr i :: ps, hexposed, by rw [spell, hps, hrest]⟩
      · obtain ⟨ps, hexposed, hps⟩ := ih cs.length (by rw [← hn]; simp) cs rfl
        refine ⟨.inl c :: ps, ⟨fun i hi => h ⟨i, ?_⟩, hexposed⟩, by rw [spell, hps]⟩
        rwa [hps] at hi

/-- For a given list of words this is a finite check. -/
theorem apart_of_check [DecidableEq α] [DecidableEq ι] (is : List ι) (hall : ∀ i, i ∈ is)
    (hempty : is.all (fun i => !(word i).isEmpty) = true)
    (hcheck : is.all (fun i => is.all fun j => (word i).tails.all fun s =>
      s.isEmpty || (if s = word i then !s.isPrefixOf (word j) || decide (i = j)
        else !s.isPrefixOf (word j) && !(word j).isPrefixOf s)) = true) : Apart word := by
  have hfacts : ∀ i j s, s ≠ [] → s <:+ word i →
      (if s = word i then !s.isPrefixOf (word j) || decide (i = j)
        else !s.isPrefixOf (word j) && !(word j).isPrefixOf s) = true := by
    intro i j s hne hs
    have h := List.all_eq_true.mp (List.all_eq_true.mp (List.all_eq_true.mp hcheck i (hall i)) j
      (hall j)) s ((List.mem_tails s (word i)).mpr hs)
    exact (Bool.or_eq_true_iff.mp h).resolve_left fun he => hne (List.isEmpty_iff.mp he)
  have hnonempty : ∀ i, word i ≠ [] := by
    intro i he
    have h := List.all_eq_true.mp hempty i (hall i)
    rw [he] at h
    cases h
  refine ⟨hnonempty, ?_, ?_⟩
  · intro i j h
    have hfact := hfacts i j (word i) (hnonempty i) (List.suffix_refl _)
    rw [if_pos rfl, List.isPrefixOf_iff_prefix.mpr h] at hfact
    simpa using hfact
  · intro i j s hne hs hproper
    have hfact := hfacts i j s hne hs
    rw [if_neg hproper, Bool.and_eq_true_iff] at hfact
    simp only [Bool.not_eq_true', Bool.eq_false_iff, Ne, List.isPrefixOf_iff_prefix] at hfact
    exact hfact

theorem spell_append : spell word (ps ++ qs) = spell word ps ++ spell word qs := by
  induction ps with
  | nil => rfl
  | cons p ps ih =>
    cases p with
    | inl c => rw [List.cons_append, spell, spell, ih, List.cons_append]
    | inr k => rw [List.cons_append, spell, spell, ih, List.append_assoc]

/-- A word is among the pieces exactly when it stands in the text. -/
theorem Apart.mem_pieces_iff (hw : Apart word) (hps : Exposed word ps) :
    .inr i ∈ ps ↔ word i <:+: spell word ps := by
  constructor
  · intro h
    obtain ⟨before, after, rfl⟩ := List.append_of_mem h
    rw [spell_append, spell]
    exact ⟨spell word before, spell word after, List.append_assoc _ _ _⟩
  · rintro ⟨u, v, h⟩
    rw [List.append_assoc] at h
    induction ps generalizing u v with
    | nil =>
      have hempty : word i ++ v = [] := (List.append_eq_nil_iff.mp h).2
      exact absurd (List.append_eq_nil_iff.mp hempty).1 (hw.nonempty i)
    | cons p ps ih =>
      cases p with
      | inl c =>
        cases u with
        | nil => exact absurd ⟨v, h⟩ (hps.1 i)
        | cons d u => exact List.mem_cons_of_mem _ (ih hps.2 u v (List.cons.inj h).2)
      | inr k =>
        rw [spell] at h
        rcases List.prefix_or_prefix_of_prefix ⟨_, h⟩ (List.prefix_append (word k) _) with hu | hu
        · obtain ⟨s, hs⟩ := hu
          rw [← hs, List.append_assoc] at h
          have hbegins : word i <+: s ++ spell word ps := ⟨v, List.append_cancel_left h⟩
          by_cases hempty : u = []
          · rw [hempty, List.nil_append] at hs
            rw [hs] at hbegins
            rw [hw.eq_of_prefix hbegins (List.prefix_append _ _)]
            exact List.mem_cons_self
          · by_cases hs' : s = []
            · rw [hs', List.nil_append] at hbegins
              rw [hs', List.append_nil] at hs
              obtain ⟨v', hv'⟩ := hbegins
              exact List.mem_cons_of_mem _ (ih hps [] v' hv')
            · refine absurd hbegins (hw.not_within hs' ⟨u, hs⟩ ?_)
              intro he
              have hlength := congrArg List.length hs
              rw [List.length_append, he] at hlength
              exact hempty (List.length_eq_zero_iff.mp (by omega))
        · obtain ⟨u', rfl⟩ := hu
          rw [List.append_assoc] at h
          exact List.mem_cons_of_mem _ (ih hps u' v (List.append_cancel_left h))

theorem replace_beyond {m : Matcher α} {new before rest : List α}
    (h : ∀ s, s ≠ [] → s <:+ before → m (s ++ rest) = none) :
    replace m new (before ++ rest) = before ++ replace m new rest := by
  induction before with
  | nil => rfl
  | cons c cs ih =>
    rw [List.cons_append, replace, replaceFrom, ← List.cons_append,
      h (c :: cs) (List.cons_ne_nil _ _) (List.suffix_refl _)]
    exact congrArg (c :: ·) (ih fun s hne hs => h s hne (hs.trans (List.suffix_cons c cs)))

section Exchange

variable [DecidableEq α] [DecidableEq ι]

def exchange (i j k : ι) : ι := if k = i then j else k

omit [DecidableEq ι] in
theorem literal_eq_none {w : List α} (h : ¬ w <+: text) : literal w text = none := by
  rw [literal, if_neg fun hp => h (List.isPrefixOf_iff_prefix.mp hp)]

omit [DecidableEq ι] in
theorem literal_append (w rest : List α) : literal w (w ++ rest) = some w.length := by
  rw [literal, if_pos (List.isPrefixOf_iff_prefix.mpr (List.prefix_append w rest))]

/-- Replacing one word by another exchanges the pieces. -/
theorem Apart.replace_spell (hw : Apart word) (hps : Exposed word ps) :
    replace (literal (word i)) (word j) (spell word ps) =
      spell word (renamed (exchange i j) ps) := by
  induction ps with
  | nil => rfl
  | cons p ps ih =>
    cases p with
    | inl c =>
      rw [spell, replace, replaceFrom, literal_eq_none (hps.1 i)]
      exact congrArg (c :: ·) (ih hps.2)
    | inr k =>
      rw [spell, renamed_word, spell, ← ih hps, exchange]
      by_cases hk : k = i
      · subst hk
        rw [if_pos rfl]
        have hnone : ∀ a c b, ([] : List α) = a ++ c :: b →
            literal (word k) (c :: b ++ (word k ++ spell word ps)) = none := by simp
        exact replace_at (word j) (spell word ps) (hw.nonempty k) hnone (literal_append _ _)
      · rw [if_neg hk]
        refine replace_beyond fun s hne hs => literal_eq_none ?_
        by_cases hproper : s = word k
        · rw [hproper]
          exact fun h => hk (hw.eq_of_prefix ⟨_, rfl⟩ h)
        · exact hw.not_within hne hs hproper

end Exchange

end WordEdits
