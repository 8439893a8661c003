import Mathlib.Data.List.TakeWhile

/-! # Scanning the lines of a stream

A buffered scanner cuts a stream into lines while the stream still grows. It takes no line
that does not fit its buffer: there it stops, and what follows is never read. -/
namespace LineScanner

variable {α : Type*} [DecidableEq α] {sep mark : α}

/-- The lines of a text; the last one needs no separator. -/
def lines (sep : α) : List α → List (List α)
  | [] => []
  | c :: cs =>
    if c = sep then [] :: lines sep cs
    else match lines sep cs with
      | [] => [[c]]
      | l :: ls => (c :: l) :: ls

/-- One mark at the end of a line belongs to its separator. -/
def dropMark (mark : α) (line : List α) : List α :=
  if line.getLast? = some mark then line.dropLast else line

inductive Scan (α : Type*) where
  | token (line rest : List α)
  | blocked
  | stopped

/-- The next line of the unread data; at the end of the stream it needs no separator. -/
def scan (sep : α) (limit : ℕ) (data : List α) (atEnd : Bool) : Scan α :=
  let line := data.takeWhile fun c => decide (c ≠ sep)
  match data.dropWhile fun c => decide (c ≠ sep) with
  | _ :: rest => if line.length < limit then .token line rest else .stopped
  | [] =>
    if limit ≤ line.length then .stopped
    else if !atEnd then .blocked
    else if data = [] then .stopped
    else .token line []

/-! ## Lines -/

theorem lines_separated {l : List α} (h : sep ∉ l) (cs : List α) :
    lines sep (l ++ sep :: cs) = l :: lines sep cs := by
  induction l with
  | nil => simp [lines]
  | cons c l ih =>
    obtain ⟨hc, hl⟩ := not_or.mp (mt List.mem_cons.mpr h)
    have hne : c ≠ sep := fun he => hc he.symm
    simp [lines, hne, ih hl]

theorem lines_last {l : List α} (h : sep ∉ l) (hl : l ≠ []) : lines sep l = [l] := by
  induction l with
  | nil => exact absurd rfl hl
  | cons c l ih =>
    obtain ⟨hc, hsep⟩ := not_or.mp (mt List.mem_cons.mpr h)
    have hne : c ≠ sep := fun he => hc he.symm
    cases l with
    | nil => simp [lines, hne]
    | cons d l =>
      have hrest := ih hsep (List.cons_ne_nil d l)
      simp only [lines, hne, if_false] at hrest ⊢
      rw [hrest]

/-- Whatever follows can only lengthen the line it continues. -/
theorem lines_unterminated {l : List α} (h : sep ∉ l) (hl : l ≠ []) (cs : List α) :
    ∃ l' ls, lines sep (l ++ cs) = l' :: ls ∧ l.length ≤ l'.length := by
  induction l with
  | nil => exact absurd rfl hl
  | cons c l ih =>
    obtain ⟨hc, hsep⟩ := not_or.mp (mt List.mem_cons.mpr h)
    have hne : c ≠ sep := fun he => hc he.symm
    cases l with
    | nil =>
      simp only [List.singleton_append, lines, hne, if_false]
      cases lines sep cs with
      | nil => exact ⟨[c], [], rfl, Nat.le_refl 1⟩
      | cons l' ls => exact ⟨c :: l', ls, rfl, by simp⟩
    | cons d l =>
      obtain ⟨l', ls, he, hlen⟩ := ih hsep (List.cons_ne_nil d l)
      refine ⟨c :: l', ls, ?_, ?_⟩
      · rw [List.cons_append, lines, if_neg hne, he]
      · simpa using hlen

/-- A text that would end in a separator shows no empty line there. -/
def trimLast (ls : List (List α)) : List (List α) :=
  if ls.getLast? = some [] then ls.dropLast else ls

theorem trimLast_cons (l u : List α) (ls : List (List α)) :
    trimLast (l :: u :: ls) = l :: trimLast (u :: ls) := by
  unfold trimLast
  rw [List.getLast?_cons_cons]
  split
  · rw [List.dropLast_cons_cons]
  · rfl

theorem lines_joined {l : List α} {ls : List (List α)} (hl : sep ∉ l)
    (hls : ∀ u ∈ ls, sep ∉ u) :
    lines sep (l ++ ls.flatMap fun u => sep :: u) = trimLast (l :: ls) := by
  induction ls generalizing l with
  | nil =>
    by_cases he : l = []
    · simp [he, lines, trimLast]
    · simp [lines_last hl he, trimLast, he]
  | cons u ls ih =>
    obtain ⟨hu, hls⟩ := List.forall_mem_cons.mp hls
    rw [List.flatMap_cons, List.cons_append, lines_separated hl, ih hu hls, trimLast_cons]

theorem trimLast_prefix (ls : List (List α)) : trimLast ls <+: ls := by
  unfold trimLast
  split
  · exact List.dropLast_prefix ls
  · exact List.prefix_refl ls

/-- Nothing is lost from behind an empty line. -/
theorem mem_trimLast {l : List α} {ls : List (List α)} (h : l ∈ ls) :
    l ∈ trimLast ([] :: ls) := by
  obtain ⟨u, us, rfl⟩ := List.exists_cons_of_ne_nil (List.ne_nil_of_mem h)
  by_cases he : l = []
  · rw [trimLast_cons, he]
    exact List.mem_cons_self
  · rw [trimLast_cons]
    refine List.mem_cons_of_mem _ ?_
    unfold trimLast
    split
    · next hlast =>
      obtain ⟨ls, hls⟩ := List.getLast?_eq_some_iff.mp hlast
      rw [hls] at h ⊢
      rw [List.dropLast_concat]
      rcases List.mem_append.mp h with h | h
      · exact h
      · exact absurd (List.mem_singleton.mp h) he
    · exact h

omit [DecidableEq α] in
theorem getElem?_of_initial {ls us : List (List α)} (h : ls <+: us) {i : ℕ} {l : List α}
    (hl : ls[i]? = some l) : us[i]? = some l := by
  obtain ⟨t, rfl⟩ := h
  obtain ⟨hi, -⟩ := List.getElem?_eq_some_iff.mp hl
  rw [List.getElem?_append_left hi, hl]

omit [DecidableEq α] in
/-- Lines that stay the same behind an empty first line are all empty. -/
theorem eq_nil_of_shifted {ls us : List (List α)} (hls : ls <+: [] :: us) (hus : us <+: ls) :
    ∀ l ∈ ls, l = [] := by
  have hat : ∀ (i : ℕ) (l : List α), ls[i]? = some l → l = [] := by
    intro i
    induction i with
    | zero =>
      intro l hl
      have hfirst := getElem?_of_initial hls hl
      simpa using hfirst.symm
    | succ i ih =>
      intro l hl
      have hshift := getElem?_of_initial hls hl
      rw [List.getElem?_cons_succ] at hshift
      exact ih l (getElem?_of_initial hus hshift)
  intro l hl
  obtain ⟨i, hi⟩ := List.getElem?_of_mem hl
  exact hat i l hi

theorem trimLast_empty {ls : List (List α)} (h : ∀ l ∈ ls, l = []) : trimLast ([] :: ls) = ls := by
  have hrep := List.eq_replicate_of_mem h
  rw [hrep, trimLast, ← List.replicate_succ, List.getLast?_replicate, List.dropLast_replicate]
  simp

/-! ## The scanner -/

theorem notMem_takeWhile (sep : α) (data : List α) :
    sep ∉ data.takeWhile fun c => decide (c ≠ sep) := by
  intro h
  simpa using List.mem_takeWhile_imp h

theorem scan_split {c : α} {rest data : List α}
    (h : data.dropWhile (fun c => decide (c ≠ sep)) = c :: rest) :
    data = (data.takeWhile fun c => decide (c ≠ sep)) ++ sep :: rest := by
  have hc : c = sep := by
    have hhead := List.head?_dropWhile_not (fun c => decide (c ≠ sep)) data
    rw [h] at hhead
    simpa using hhead
  calc data = data.takeWhile (fun c => decide (c ≠ sep)) ++
        data.dropWhile fun c => decide (c ≠ sep) := List.takeWhile_append_dropWhile.symm
    _ = _ := by rw [h, hc]

theorem scan_whole {data : List α} (h : data.dropWhile (fun c => decide (c ≠ sep)) = []) :
    (data.takeWhile fun c => decide (c ≠ sep)) = data := by
  have hsplit := List.takeWhile_append_dropWhile (p := fun c => decide (c ≠ sep)) (l := data)
  rwa [h, List.append_nil] at hsplit

/-- The first `read` elements of a stream are read: they hold the lines `taken`, and what
follows begins a new line. -/
def Cut (sep : α) (read : List α) (taken : List (List α)) : Prop :=
  ∀ more, lines sep (read ++ more) = taken ++ lines sep more

theorem cut_nil : Cut sep [] ([] : List (List α)) := fun _ => rfl

/-- What one call of the scanner says about the unread data: a line is cut off for good, or
it is the last one, or the scanner stops before a line that is too long. -/
theorem scan_token {limit : ℕ} {data line rest : List α} {atEnd : Bool}
    (h : scan sep limit data atEnd = .token line rest) :
    sep ∉ line ∧ ((∃ read, data = read ++ rest ∧ Cut sep read [line]) ∨
      (atEnd = true ∧ rest = [] ∧ lines sep data = [line])) := by
  have hfree := notMem_takeWhile sep data
  simp only [scan] at h
  split at h
  · next c r hd =>
    split at h
    · obtain ⟨rfl, rfl⟩ := Scan.token.inj h
      refine ⟨hfree, Or.inl ⟨data.takeWhile (fun c => decide (c ≠ sep)) ++ [sep], ?_, ?_⟩⟩
      · rw [List.append_assoc]
        exact scan_split hd
      · intro more
        rw [List.append_assoc, List.singleton_append, lines_separated hfree, List.singleton_append]
    · cases h
  · next hd =>
    have hwhole := scan_whole hd
    split at h
    · cases h
    · split at h
      · cases h
      · split at h
        · cases h
        · next hend hne =>
          obtain ⟨rfl, rfl⟩ := Scan.token.inj h
          refine ⟨hfree, Or.inr ⟨by simpa using hend, rfl, ?_⟩⟩
          rw [hwhole] at hfree ⊢
          exact lines_last hfree hne

theorem scan_stopped {limit : ℕ} {data : List α} {atEnd : Bool} (hlimit : 0 < limit)
    (h : scan sep limit data atEnd = .stopped) :
    (atEnd = true ∧ data = []) ∨
      ∀ more, ∃ l ls, lines sep (data ++ more) = l :: ls ∧ limit ≤ l.length := by
  have hfree := notMem_takeWhile sep data
  simp only [scan] at h
  split at h
  · next c r hd =>
    split at h
    · cases h
    · next hlong =>
      refine Or.inr fun more => ⟨_, lines sep (r ++ more), ?_, Nat.le_of_not_lt hlong⟩
      have hlines := lines_separated hfree (r ++ more)
      rwa [← List.cons_append, ← List.append_assoc, ← scan_split hd] at hlines
  · next hd =>
    have hwhole := scan_whole hd
    rw [hwhole] at h hfree
    split at h
    · next hlong =>
      have hne : data ≠ [] := by
        rintro rfl
        exact absurd hlong (Nat.not_le.mpr hlimit)
      refine Or.inr fun more => ?_
      obtain ⟨l, ls, he, hlen⟩ := lines_unterminated hfree hne more
      exact ⟨l, ls, he, Nat.le_trans hlong hlen⟩
    · split at h
      · cases h
      · split at h
        · next hend hnil => exact Or.inl ⟨by simpa using hend, hnil⟩
        · cases h

end LineScanner
