import Mathlib.Data.List.Basic

/-! # Filters in a pipeline of lines

The lines with a mark are printed with some lines of context behind each, and a separator stands
between groups that were apart; the next filter reads the separators as lines. One that passes
no separator in the end does not see the difference. -/
namespace LineFilters

variable {α : Type*}

/-! ## Lines with context -/

/-- Nothing has been printed, some lines of context are due behind what was printed, or lines
were left out behind it. -/
inductive Printed where
  | nothing
  | due (count : ℕ)
  | apart

namespace Printed

def count : Printed → ℕ
  | .due count => count
  | _ => 0

def separation (separator : α) : Printed → List α
  | .apart => [separator]
  | _ => []

def lines (mark : α → Bool) (separator : α) (printed : Printed) (l : α) : List α :=
  if mark l then printed.separation separator ++ [l]
  else if printed.count = 0 then [] else [l]

def next (k : ℕ) (mark : α → Bool) (printed : Printed) (l : α) : Printed :=
  if mark l then .due k
  else match printed with
    | .nothing => .nothing
    | .apart => .apart
    | .due 0 => .apart
    | .due (count + 1) => .due count

end Printed

/-- The lines with a mark and `k` lines behind each. -/
def contextAfter (k : ℕ) (mark : α → Bool) (separator : α) : Printed → List α → List α
  | _, [] => []
  | printed, l :: ls =>
    printed.lines mark separator l ++ contextAfter k mark separator (printed.next k mark l) ls

/-- The lines that have a mark in themselves or in one of the `k` lines above; `above` are the
lines above, the nearest first. -/
def within (k : ℕ) (mark : α → Bool) : List α → List α → List α
  | _, [] => []
  | above, l :: ls =>
    (if (l :: above.take k).any mark then [l] else []) ++ within k mark (l :: above) ls

/-- The lines of context that are due below these lines, the nearest of which is the first. -/
def due (k : ℕ) (mark : α → Bool) : List α → ℕ
  | [] => 0
  | l :: above => if mark l then k else due k mark above - 1

variable {k : ℕ} {mark p : α → Bool} {separator : α} {printed : Printed}
variable {above ls before rest : List α} {l head : α}

namespace Printed

theorem mem_separation {x : α} (h : x ∈ printed.separation separator) : x = separator := by
  cases printed with
  | apart => exact List.mem_singleton.mp h
  | nothing => exact absurd h List.not_mem_nil
  | due => exact absurd h List.not_mem_nil

theorem mem_lines {x : α} (h : x ∈ printed.lines mark separator l) : x = l ∨ x = separator := by
  rw [lines] at h
  split at h
  · rcases List.mem_append.mp h with h | h
    · exact Or.inr (mem_separation h)
    · exact Or.inl (List.mem_singleton.mp h)
  · split at h
    · exact absurd h List.not_mem_nil
    · exact Or.inl (List.mem_singleton.mp h)

theorem count_next : (printed.next k mark l).count =
    if mark l then k else printed.count - 1 := by
  rw [next.eq_def]
  split
  · rfl
  · match printed with
    | .nothing => rfl
    | .apart => rfl
    | .due 0 => rfl
    | .due (count + 1) => rfl

end Printed

theorem lt_due_iff (j : ℕ) : j < due k mark above ↔ (above.take (k - j)).any mark = true := by
  induction above generalizing j with
  | nil => simp [due]
  | cons l above ih =>
    rw [due]
    by_cases hl : mark l = true
    · rw [if_pos hl]
      cases h : k - j with
      | zero => simp; omega
      | succ i => simp [hl]; omega
    · have hnext : j < due k mark above - 1 ↔ j + 1 < due k mark above := by omega
      rw [if_neg hl, hnext, ih]
      cases h : k - j with
      | zero =>
        have hzero : k - (j + 1) = 0 := by omega
        simp [hzero]
      | succ i =>
        have hsucc : k - (j + 1) = i := by omega
        simp [hsucc, hl]

theorem due_pos_iff : 0 < due k mark above ↔ (above.take k).any mark = true := lt_due_iff 0

theorem contextAfter_append (a b : List α) : contextAfter k mark separator printed (a ++ b) =
    contextAfter k mark separator printed a ++
      contextAfter k mark separator (a.foldl (Printed.next k mark) printed) b := by
  induction a generalizing printed with
  | nil => rfl
  | cons l a ih => rw [List.cons_append, contextAfter, contextAfter, ih, List.append_assoc,
      List.foldl_cons]

theorem mem_contextAfter {x : α} (h : x ∈ contextAfter k mark separator printed ls) :
    x ∈ ls ∨ x = separator := by
  induction ls generalizing printed with
  | nil => exact absurd h List.not_mem_nil
  | cons l ls ih =>
    rw [contextAfter] at h
    rcases List.mem_append.mp h with h | h
    · exact (Printed.mem_lines h).imp_left fun hx => List.mem_cons.mpr (.inl hx)
    · exact (ih h).imp_left (List.mem_cons_of_mem l)

theorem due_le : due k mark above ≤ k := by
  induction above with
  | nil => exact Nat.zero_le k
  | cons l above ih =>
    rw [due]
    split
    · exact Nat.le_refl k
    · omega

theorem lines_of_count {count : ℕ} (h : 0 < count) :
    (Printed.due count).lines mark separator l = [l] := by
  have hcount : (Printed.due count).count ≠ 0 := Nat.ne_of_gt h
  rw [Printed.lines, if_neg hcount]
  exact ite_self _

theorem next_due (h : 0 < due k mark above) :
    (Printed.due (due k mark above)).next k mark l = .due (due k mark (l :: above)) := by
  obtain ⟨count, hcount⟩ := Nat.exists_eq_succ_of_ne_zero (Nat.ne_of_gt h)
  rw [Printed.next.eq_def, due, hcount]
  by_cases hl : mark l = true
  · rw [if_pos hl, if_pos hl]
  · rw [if_neg hl, if_neg hl]
    rfl

/-- Lines that are due are printed, and those with a mark make more of them due. -/
theorem contextAfter_due {shown : List α} (h : shown.length ≤ due k mark above) (ls : List α) :
    contextAfter k mark separator (.due (due k mark above)) (shown ++ ls) =
      shown ++ contextAfter k mark separator (.due (due k mark (shown.reverse ++ above))) ls := by
  induction shown generalizing above with
  | nil => rfl
  | cons l shown ih =>
    have hpos : 0 < due k mark above := Nat.lt_of_lt_of_le (Nat.succ_pos _) h
    have hnext : shown.length ≤ due k mark (l :: above) := by
      have hle : due k mark above ≤ k := due_le
      rw [List.length_cons] at h
      rw [due]
      split <;> omega
    rw [List.cons_append, contextAfter, lines_of_count hpos, next_due hpos, ih hnext,
      List.reverse_cons, List.append_assoc, List.singleton_append, List.singleton_append,
      List.cons_append]

/-- A line with a mark is printed with the lines that are due behind it, whatever stands above. -/
theorem contextAfter_marked (separator : α) (printed : Printed) (hhead : mark head = true)
    {shown : List α} (hshown : shown.length ≤ k) (before ls : List α) :
    ∃ earlier, contextAfter k mark separator printed (before ++ head :: (shown ++ ls)) =
        earlier ++ head :: (shown ++
          contextAfter k mark separator (.due (due k mark (shown.reverse ++ [head]))) ls) ∧
      ∀ l ∈ earlier, l ∈ before ∨ l = separator := by
  have hdue : due k mark [head] = k := by rw [due, if_pos hhead]
  have hrest : contextAfter k mark separator (.due k) (shown ++ ls) =
      shown ++ contextAfter k mark separator (.due (due k mark (shown.reverse ++ [head]))) ls := by
    have hle : shown.length ≤ due k mark [head] := by
      rw [hdue]
      exact hshown
    rw [← contextAfter_due hle ls, hdue]
  refine ⟨contextAfter k mark separator printed before ++
    (before.foldl (Printed.next k mark) printed).separation separator, ?_, ?_⟩
  · rw [contextAfter_append, contextAfter, Printed.lines, if_pos hhead, Printed.next.eq_def,
      if_pos hhead, hrest, List.append_assoc, List.append_assoc, List.singleton_append]
  · intro l hl
    rcases List.mem_append.mp hl with hl | hl
    · exact mem_contextAfter hl
    · exact Or.inr (Printed.mem_separation hl)

/-- Behind a line with a mark and more lines without one than are due, nothing is printed. -/
theorem contextAfter_beyond (hrest : ∀ l ∈ ls, mark l = false) (hown : mark head = false)
    (hbeyond : printed.count ≤ ls.length) (below : List α) :
    ∀ l ∈ contextAfter k mark separator printed (ls ++ head :: below),
      l ∈ ls ++ below ∨ l = separator := by
  induction ls generalizing printed with
  | nil =>
    intro l hl
    have hcount : printed.count = 0 := Nat.le_zero.mp hbeyond
    rw [List.nil_append, contextAfter, Printed.lines, if_neg (Bool.eq_false_iff.mp hown),
      if_pos hcount, List.nil_append] at hl
    exact mem_contextAfter hl
  | cons l ls ih =>
    obtain ⟨hl, hls⟩ := List.forall_mem_cons.mp hrest
    have hcount : (printed.next k mark l).count ≤ ls.length := by
      rw [Printed.count_next, if_neg (Bool.eq_false_iff.mp hl)]
      rw [List.length_cons] at hbeyond
      omega
    intro x hx
    rw [List.cons_append, contextAfter] at hx
    rcases List.mem_append.mp hx with hx | hx
    · refine (Printed.mem_lines hx).imp_left fun heq => ?_
      rw [heq]
      exact List.mem_cons_self
    · exact (ih hls hcount x hx).imp_left (List.mem_cons_of_mem l)

theorem filter_contextAfter (hseparator : p separator = false)
    (hcount : printed.count = due k mark above) :
    (contextAfter k mark separator printed ls).filter p = (within k mark above ls).filter p := by
  induction ls generalizing printed above with
  | nil => rfl
  | cons l ls ih =>
    have hnext : (printed.next k mark l).count = due k mark (l :: above) := by
      rw [Printed.count_next, hcount, due]
    have hlines : (printed.lines mark separator l).filter p =
        List.filter p (if (l :: above.take k).any mark then [l] else []) := by
      have hdue : 0 < printed.count ↔ (above.take k).any mark = true := by
        rw [hcount]
        exact due_pos_iff
      rw [Printed.lines, List.any_cons]
      by_cases hl : mark l = true
      · rw [if_pos hl, hl, Bool.true_or, if_pos rfl, List.filter_append]
        cases printed <;> simp [Printed.separation, hseparator]
      · rw [if_neg hl, Bool.eq_false_iff.mpr hl, Bool.false_or]
        by_cases hzero : printed.count = 0
        · rw [if_pos hzero, if_neg (hdue.not.mp (by omega))]
        · rw [if_neg hzero, if_pos (hdue.mp (by omega))]
    rw [contextAfter, within, List.filter_append, List.filter_append, ih hnext, hlines]

theorem within_append (a b : List α) : within k mark above (a ++ b) =
    within k mark above a ++ within k mark (a.reverse ++ above) b := by
  induction a generalizing above with
  | nil => rfl
  | cons l a ih =>
    rw [List.cons_append, within, within, ih, List.append_assoc, List.reverse_cons,
      List.append_assoc, List.singleton_append]

/-- Only the nearest lines above matter. -/
theorem within_congr {above' : List α} (h : above.take k = above'.take k) :
    within k mark above ls = within k mark above' ls := by
  induction ls generalizing above above' with
  | nil => rfl
  | cons l ls ih =>
    have hnext : (l :: above).take k = (l :: above').take k := by
      cases k with
      | zero => rfl
      | succ k =>
        have htake := congrArg (List.take k) h
        rw [List.take_take, List.take_take, Nat.min_eq_left (Nat.le_succ k)] at htake
        rw [List.take_succ_cons, List.take_succ_cons, htake]
    rw [within, within, h, ih hnext]

theorem mem_of_mem_within {x : α} (h : x ∈ within k mark above ls) : x ∈ ls := by
  induction ls generalizing above with
  | nil => exact absurd h List.not_mem_nil
  | cons l ls ih =>
    rw [within] at h
    rcases List.mem_append.mp h with h | h
    · split at h
      · rw [List.mem_singleton.mp h]
        exact List.mem_cons_self
      · exact absurd h List.not_mem_nil
    · exact List.mem_cons_of_mem l (ih h)

/-! ## A filter of the context within a context -/

section Selected

variable {opening : α → Bool} {k₁ k₂ : ℕ} {below : List α} {own : α}

/-- The lines that a last filter passes of the context of a mark within the one of an opening. -/
def selected (k₁ : ℕ) (opening : α → Bool) (k₂ : ℕ) (mark p : α → Bool) (separator : α)
    (ls : List α) : List α :=
  (contextAfter k₂ mark separator .nothing
    (contextAfter k₁ opening separator .nothing ls)).filter p

theorem selected_eq (k₁ k₂ : ℕ) (mark : α → Bool) (opening : α → Bool)
    (hseparator : p separator = false) (ls : List α) :
    selected k₁ opening k₂ mark p separator ls =
      (within k₂ mark [] (contextAfter k₁ opening separator .nothing ls)).filter p := by
  have hcount : Printed.nothing.count = due k₂ mark [] := rfl
  rw [selected, filter_contextAfter hseparator hcount]

theorem mem_of_passes {shown : List α} (hseparator : p separator = false)
    (hshown : ∀ l ∈ shown, l ∈ ls ∨ l = separator)
    (h : l ∈ (within k mark above shown).filter p) : l ∈ ls := by
  obtain ⟨hl, hp⟩ := List.mem_filter.mp h
  rcases hshown l (mem_of_mem_within hl) with hl | rfl
  · exact hl
  · exact absurd hp (Bool.eq_false_iff.mp hseparator)

/-- A line that stands further below the opening than its context is not read. -/
theorem selected_beyond (hseparator : p separator = false) (hhead : opening head = true)
    (habove : ∀ l ∈ above, opening l = false) (hown : opening own = false)
    (hbeyond : k₁ ≤ above.length) (before : List α) :
    ∀ l ∈ selected k₁ opening k₂ mark p separator (before ++ head :: (above ++ own :: below)),
      l ∈ before ++ head :: above ++ below := by
  have hprinted : ∀ l ∈ contextAfter k₁ opening separator .nothing
      (before ++ head :: (above ++ own :: below)),
      l ∈ before ++ head :: above ++ below ∨ l = separator := by
    intro l hl
    rw [List.append_cons, contextAfter_append] at hl
    rcases List.mem_append.mp hl with hl | hl
    · refine (mem_contextAfter hl).imp_left fun hmem => ?_
      simp only [List.mem_append, List.mem_cons] at hmem ⊢
      tauto
    · have hcount : ((before ++ [head]).foldl (Printed.next k₁ opening) .nothing).count ≤
          above.length := by
        rw [List.foldl_append, List.foldl_cons, List.foldl_nil, Printed.count_next, if_pos hhead]
        exact hbeyond
      refine (contextAfter_beyond habove hown hcount below l hl).imp_left fun hmem => ?_
      simp only [List.mem_append, List.mem_cons] at hmem ⊢
      tauto
  intro l hl
  rw [selected_eq _ _ _ _ hseparator] at hl
  exact mem_of_passes hseparator hprinted hl

/-- A line within both contexts is read, and behind it what stands within a context below it. -/
theorem selected_own (hseparator : p separator = false) (hhead : opening head = true)
    (hshown : above.length < k₁) (hlength : k₂ ≤ above.length + 1)
    (hmark : (above.reverse.take k₂).any mark = true) (hown : p own = true) (before : List α) :
    ∃ earlier, selected k₁ opening k₂ mark p separator
        (before ++ head :: (above ++ own :: below)) = earlier ++ own ::
          (within k₂ mark (own :: above.reverse) (contextAfter k₁ opening separator
            (.due (due k₁ opening (own :: above.reverse ++ [head]))) below)).filter p := by
  have hlines : (above ++ [own]).length ≤ k₁ := by
    rw [List.length_append, List.length_singleton]
    omega
  obtain ⟨shown, hprinted, -⟩ :=
    contextAfter_marked separator .nothing hhead hlines before below
  rw [List.reverse_append, List.reverse_singleton, List.singleton_append, List.append_assoc,
    List.append_assoc, List.singleton_append, List.singleton_append] at hprinted
  have hreach : (own :: (above.reverse ++ head :: shown.reverse).take k₂).any mark = true := by
    rw [List.any_cons, List.take_append, List.any_append, hmark, Bool.true_or, Bool.or_true]
  have hbelow : (own :: (above.reverse ++ head :: shown.reverse)).take k₂ =
      (own :: above.reverse).take k₂ := by
    rw [← List.cons_append, List.take_append_of_le_length]
    simpa using hlength
  have habove : (shown ++ head :: above).reverse ++ [] =
      above.reverse ++ head :: shown.reverse := by
    simp
  refine ⟨(within k₂ mark [] (shown ++ head :: above)).filter p, ?_⟩
  rw [selected_eq _ _ _ _ hseparator, hprinted, List.append_cons, ← List.append_assoc,
    List.append_assoc shown, List.singleton_append, within_append, List.filter_append, habove,
    within, if_pos hreach, within_congr hbelow, List.singleton_append,
    List.filter_cons_of_pos hown]

end Selected

/-! ## Fields -/

section Fields

variable {blank : α → Bool} {w text : List α} {b : α}

/-- The fields of a line are its longest parts without a blank. -/
def fields (blank : α → Bool) (line : List α) : List (List α) :=
  (line.splitOnP blank).filter fun field => !field.isEmpty

theorem fields_blank_cons (hb : blank b = true) : fields blank (b :: text) = fields blank text := by
  rw [fields, List.splitOnP_cons_eq_if_modifyHead, if_pos hb]
  rfl

theorem fields_word_cons (hne : w ≠ []) (hw : ∀ c ∈ w, blank c = false) (hb : blank b = true) :
    fields blank (w ++ b :: text) = w :: fields blank text := by
  rw [fields, List.splitOnP_append_cons_of_forall_mem hw b hb, List.filter_cons_of_pos]
  · rfl
  · simpa using hne

theorem fields_word (hne : w ≠ []) (hw : ∀ c ∈ w, blank c = false) : fields blank w = [w] := by
  rw [fields, List.splitOnP_eq_singleton hw, List.filter_cons_of_pos]
  · rfl
  · simpa using hne

theorem mem_splitOnP {piece : List α} (h : piece ∈ text.splitOnP blank) :
    (∀ c ∈ piece, blank c = false) ∧ piece.length ≤ text.length := by
  induction text generalizing piece with
  | nil =>
    rw [List.mem_singleton.mp h]
    exact ⟨fun c hc => absurd hc List.not_mem_nil, Nat.le_refl _⟩
  | cons c text ih =>
    rw [List.splitOnP_cons_eq_if_modifyHead] at h
    split at h
    · rcases List.mem_cons.mp h with rfl | h
      · exact ⟨fun c hc => absurd hc List.not_mem_nil, Nat.zero_le _⟩
      · exact (ih h).imp_right Nat.le_succ_of_le
    · obtain ⟨first, others, heq⟩ := List.exists_cons_of_ne_nil (List.splitOnP_ne_nil blank text)
      rw [heq, List.modifyHead_cons] at h
      rcases List.mem_cons.mp h with rfl | h
      · have hfirst : first ∈ text.splitOnP blank := by
          rw [heq]
          exact List.mem_cons_self
        exact ⟨List.forall_mem_cons.mpr ⟨Bool.eq_false_iff.mpr ‹_›, (ih hfirst).1⟩,
          Nat.succ_le_succ (ih hfirst).2⟩
      · have hpiece : piece ∈ text.splitOnP blank := by
          rw [heq]
          exact List.mem_cons_of_mem _ h
        exact (ih hpiece).imp_right Nat.le_succ_of_le

theorem blank_of_mem_fields {field : List α} (h : field ∈ fields blank text) :
    ∀ c ∈ field, blank c = false :=
  (mem_splitOnP (List.mem_filter.mp h).1).1

/-- The first field is the whole text if and only if there is no blank in the text. -/
theorem head_fields_iff : ((fields blank text).head?).getD [] = text ↔
    ∀ c ∈ text, blank c = false := by
  constructor
  · intro h
    cases hfields : fields blank text with
    | nil =>
      rw [hfields] at h
      rw [← h]
      exact fun c hc => absurd hc List.not_mem_nil
    | cons field fields' =>
      rw [hfields] at h
      have hmem : field ∈ fields blank text := by
        rw [hfields]
        exact List.mem_cons_self
      rw [← h]
      exact blank_of_mem_fields hmem
  · intro h
    by_cases hne : text = []
    · rw [hne]
      rfl
    · rw [fields_word hne h]
      rfl

end Fields

end LineFilters
