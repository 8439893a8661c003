import Autobase.JsonText

/-! # Reading back what was written

Every layout is read back: numbers need a follower that does not continue them, everything
else is delimited. The fuel of the reader is covered by the length of the text. -/
namespace JsonRoundTrip

open JsonText

/-! ## Numbers -/

/-- No character of a number can follow. -/
def Follow (rest : List Char) : Prop :=
  ∀ c r, rest = c :: r → digit? c = none ∧ c ≠ '.' ∧ c ≠ 'e' ∧ c ≠ 'E'

theorem follow_cons {c : Char} {r : List Char}
    (h : digit? c = none ∧ c ≠ '.' ∧ c ≠ 'e' ∧ c ≠ 'E') : Follow (c :: r) := by
  intro d s he
  cases he
  exact h

theorem follow_nil : Follow [] := by
  intro c r h
  cases h

theorem follow_blank {c : Char} {r : List Char} (h : isBlank c = true) : Follow (c :: r) := by
  apply follow_cons
  simp only [isBlank, Bool.or_eq_true, decide_eq_true_eq] at h
  rcases h with ((rfl | rfl) | rfl) | rfl <;> decide

theorem digit?_digitChar : ∀ d : Digit, digit? (digitChar d) = some d := by decide

theorem digitChar_ne : ∀ d : Digit, digitChar d ≠ '-' ∧ digitChar d ≠ '+' ∧
    digitChar d ≠ '.' ∧ digitChar d ≠ 'e' ∧ digitChar d ≠ 'E' := by decide

/-- What stops a run of digits. -/
def NoDigit (rest : List Char) : Prop := ∀ c r, rest = c :: r → digit? c = none

theorem Follow.noDigit {rest : List Char} (h : Follow rest) : NoDigit rest :=
  fun c r he => (h c r he).1

theorem readDigits_append (ds : List Digit) {rest : List Char} (h : NoDigit rest) :
    readDigits (ds.map digitChar ++ rest) = (ds, rest) := by
  induction ds with
  | nil =>
    cases rest with
    | nil => rfl
    | cons c r => simp [readDigits, h c r rfl]
  | cons d ds ih => simp [readDigits, digit?_digitChar, ih]

theorem readWhole_append (w : Whole) {rest : List Char} (h : NoDigit rest) :
    readWhole (w.text ++ rest) = some (w, rest) := by
  cases w with
  | zero => rfl
  | digits lead ds =>
    have hne : lead.succ ≠ 0 := Fin.succ_ne_zero lead
    simp [Whole.text, Whole.digitList, readWhole, digit?_digitChar, hne,
      readDigits_append ds h]

theorem fraction_noDigit (f : Option (Digit × List Digit)) {rest : List Char}
    (h : NoDigit rest) : NoDigit (fractionText f ++ rest) := by
  cases f with
  | none => exact h
  | some p =>
    intro c r he
    cases he
    decide

theorem readFraction_append (f : Option (Digit × List Digit)) {rest : List Char}
    (h : NoDigit rest) (hp : ∀ r, rest ≠ '.' :: r) :
    readFraction (fractionText f ++ rest) = some (f, rest) := by
  cases f with
  | none =>
    cases rest with
    | nil => rfl
    | cons c r =>
      have hc : c ≠ '.' := fun he => hp r (by rw [he])
      simp only [fractionText, List.nil_append]
      rw [readFraction]
      rintro r' he
      exact hc (List.cons.inj he).1
  | some p =>
    have hd := readDigits_append (p.1 :: p.2) h
    simp only [fractionText, List.cons_append, readFraction, hd]

theorem readSign_append (s : Option Bool) (d : Digit) (rest : List Char) :
    readSign (signText s ++ digitChar d :: rest) = (s, digitChar d :: rest) := by
  obtain ⟨h₁, h₂, _⟩ := digitChar_ne d
  rcases s with _ | _ | _
  · simp [signText, readSign, h₁, h₂]
  · rfl
  · rfl

theorem readExponentDigits_append (e : Exponent) {rest : List Char} (h : NoDigit rest) :
    readExponentDigits e.upper
      (signText e.sign ++ ((e.lead :: e.rest).map digitChar ++ rest)) = some (some e, rest) := by
  have hs := readSign_append e.sign e.lead (e.rest.map digitChar ++ rest)
  have hd := readDigits_append (e.lead :: e.rest) h
  simp only [List.map_cons, List.cons_append] at hd ⊢
  simp [readExponentDigits, hs, hd]

theorem readExponent_append (e : Option Exponent) {rest : List Char} (h : Follow rest) :
    readExponent ((e.map Exponent.text).getD [] ++ rest) = some (e, rest) := by
  cases e with
  | none =>
    cases rest with
    | nil => rfl
    | cons c r =>
      obtain ⟨_, _, h₁, h₂⟩ := h c r rfl
      simp [readExponent, h₁, h₂]
  | some e =>
    have hd := readExponentDigits_append e h.noDigit
    cases hu : e.upper <;>
      simpa [Exponent.text, hu, readExponent] using hd

theorem exponent_noDigit (e : Option Exponent) {rest : List Char} (h : Follow rest) :
    NoDigit ((e.map Exponent.text).getD [] ++ rest) ∧
      ∀ r, (e.map Exponent.text).getD [] ++ rest ≠ '.' :: r := by
  cases e with
  | none => exact ⟨h.noDigit, fun r he => (h _ _ he).2.1 rfl⟩
  | some e =>
    constructor
    · intro c r he
      cases hu : e.upper <;> simp [Exponent.text, hu] at he <;> rw [← he.1] <;> decide
    · intro r he
      cases hu : e.upper <;> simp [Exponent.text, hu] at he

theorem whole_head (w : Whole) : ∃ d ds, w.text = digitChar d :: ds := by
  cases w with
  | zero => exact ⟨0, [], rfl⟩
  | digits lead ds => exact ⟨lead.succ, ds.map digitChar, rfl⟩

theorem readMinus_append (x : Number) (rest : List Char) :
    readMinus ((if x.negative then ['-'] else []) ++ (x.whole.text ++ rest)) =
      (x.negative, x.whole.text ++ rest) := by
  obtain ⟨d, ds, hw⟩ := whole_head x.whole
  cases x.negative with
  | true => rfl
  | false => simp [hw, readMinus, (digitChar_ne d).1]

theorem readNumber_text (x : Number) {rest : List Char} (h : Follow rest) :
    readNumber (x.text ++ rest) = some (x, rest) := by
  obtain ⟨hn, hp⟩ := exponent_noDigit x.exponent h
  have hm := readMinus_append x
    (fractionText x.fraction ++ ((x.exponent.map Exponent.text).getD [] ++ rest))
  have hw := readWhole_append x.whole (fraction_noDigit x.fraction hn)
  have hf := readFraction_append x.fraction hn hp
  have he := readExponent_append x.exponent h
  simp only [Number.text, List.append_assoc]
  simp [readNumber, hm, hw, hf, he]

/-! ## Strings -/

theorem escape_head (L : Layout) (c : Char) (rest : List Char) :
    ∃ d r, L.escape c ++ rest = d :: r ∧ d ≠ '"' := by
  have hr := L.escape_reads c rest
  cases ht : L.escape c ++ rest with
  | nil => simp [ht, readChar] at hr
  | cons d r =>
    refine ⟨d, r, rfl, ?_⟩
    rintro rfl
    simp [ht, readChar] at hr

theorem escape_length_pos (L : Layout) (c : Char) : 0 < (L.escape c).length := by
  obtain ⟨d, r, h, _⟩ := escape_head L c []
  simp only [List.append_nil] at h
  simp [h]

theorem length_le_flatMap (L : Layout) (s : List Char) :
    s.length ≤ (s.flatMap L.escape).length := by
  induction s with
  | nil => exact Nat.le_refl _
  | cons c s ih =>
    have := escape_length_pos L c
    simp only [List.flatMap_cons, List.length_append, List.length_cons]
    omega

theorem readString_succ {n : ℕ} {c : Char} {cs : List Char} (h : c ≠ '"') :
    readString (n + 1) (c :: cs) =
      (readChar (c :: cs)).bind fun p => (readString n p.2).map fun q => (p.1 :: q.1, q.2) := by
  rw [readString]
  · cases readChar (c :: cs) <;> rfl
  · rintro r he
    exact h (List.cons.inj he).1

theorem readString_escaped (L : Layout) (s : List Char) : ∀ n rest, s.length < n →
    readString n (s.flatMap L.escape ++ '"' :: rest) = some (s, rest) := by
  induction s with
  | nil =>
    intro n rest hn
    cases n with
    | zero => omega
    | succ n => rfl
  | cons c s ih =>
    intro n rest hn
    cases n with
    | zero => omega
    | succ n =>
      have hr := L.escape_reads c (s.flatMap L.escape ++ '"' :: rest)
      obtain ⟨d, r, hd, hne⟩ := escape_head L c (s.flatMap L.escape ++ '"' :: rest)
      simp only [List.flatMap_cons, List.append_assoc]
      rw [hd] at hr ⊢
      rw [readString_succ hne, hr]
      simp [ih n rest (by simpa using hn)]

/-- The fuel of a literal is the length of the text it stands in. -/
theorem readString_literal (L : Layout) (s : String) (rest : List Char) :
    let cs := s.toList.flatMap L.escape ++ '"' :: rest
    readString (cs.length + 1) cs = some (s.toList, rest) := by
  apply readString_escaped
  have := length_le_flatMap L s.toList
  simp only [List.length_append, List.length_cons]
  omega

/-! ## Blanks -/

theorem skipBlanks_append {b : List Char} (h : ∀ c ∈ b, isBlank c = true) (cs : List Char) :
    skipBlanks (b ++ cs) = skipBlanks cs := by
  induction b with
  | nil => rfl
  | cons c b ih =>
    have hc := h c (by simp)
    have ht := ih fun d hd => h d (by simp [hd])
    simpa [skipBlanks, hc] using ht

theorem skipBlanks_idem (cs : List Char) : skipBlanks (skipBlanks cs) = skipBlanks cs := by
  induction cs with
  | nil => rfl
  | cons c cs ih =>
    cases h : isBlank c with
    | true => simpa [skipBlanks, h] using ih
    | false => simp [skipBlanks, h]

theorem skipBlanks_solid {c : Char} {cs : List Char} (h : isBlank c = false) :
    skipBlanks (c :: cs) = c :: cs := by
  simp [skipBlanks, h]

theorem readValue_skipBlanks (n : ℕ) (cs : List Char) :
    readValue n (skipBlanks cs) = readValue n cs := by
  cases n with
  | zero => simp [readValue]
  | succ n => rw [readValue, readValue, skipBlanks_idem]

theorem readElements_skipBlanks (n : ℕ) (cs : List Char) :
    readElements n (skipBlanks cs) = readElements n cs := by
  cases n with
  | zero => simp [readElements]
  | succ n => rw [readElements, readElements, readValue_skipBlanks]

theorem readMembers_skipBlanks (n : ℕ) (cs : List Char) :
    readMembers n (skipBlanks cs) = readMembers n cs := by
  cases n with
  | zero => simp [readMembers]
  | succ n => rw [readMembers, readMembers, skipBlanks_idem]

/-! ## Containers -/

mutual
/-- The fuel a value needs. -/
def cost : Json → ℕ
  | .arr xs => 1 + costElements xs
  | .obj kvs => 1 + costMembers kvs
  | _ => 1

def costElements : List Json → ℕ
  | [] => 0
  | x :: xs => 1 + cost x + costElements xs

def costMembers : List (String × Json) → ℕ
  | [] => 0
  | (_, v) :: kvs => 1 + cost v + costMembers kvs
end

/-- `t` is a text of `v`: it is read as `v` wherever it stands, with fuel its length covers. -/
structure Written (t : List Char) (v : Json) : Prop where
  reads : ∀ n rest, cost v ≤ n → Follow rest → readValue n (t ++ rest) = some (v, rest)
  cost_le : cost v ≤ t.length

theorem cost_pos (v : Json) : 0 < cost v := by
  cases v <;> simp only [cost] <;> omega

/-- A text of a value cannot open with a closing bracket. -/
theorem Written.head_ne {t : List Char} {v : Json} (h : Written t v) {rest : List Char}
    (hf : Follow rest) (r : List Char) :
    skipBlanks (t ++ rest) ≠ ']' :: r := by
  intro he
  have hr := h.reads (cost v) rest (Nat.le_refl _) hf
  rw [← readValue_skipBlanks, he] at hr
  obtain ⟨m, hm⟩ : ∃ m, cost v = m + 1 := ⟨cost v - 1, by have := cost_pos v; omega⟩
  rw [hm, readValue, skipBlanks_solid (by decide)] at hr
  simp [readNumber, readMinus, readWhole, digit?] at hr

theorem follow_close {b : List Char} (hb : ∀ c ∈ b, isBlank c = true) {c : Char}
    (hc : c = ',' ∨ c = ']' ∨ c = '}') (r : List Char) : Follow (b ++ c :: r) := by
  cases b with
  | nil => rcases hc with rfl | rfl | rfl <;> exact follow_cons (by decide)
  | cons d b => exact follow_blank (hb d (by simp))

theorem skipBlanks_close {b : List Char} (hb : ∀ c ∈ b, isBlank c = true) {c : Char}
    (hc : isBlank c = false) (r : List Char) : skipBlanks (b ++ c :: r) = c :: r := by
  rw [skipBlanks_append hb, skipBlanks_solid hc]

section Elements

variable {gap close : List Char}

theorem readElements_joined (hgap : ∀ c ∈ gap, isBlank c = true)
    (hclose : ∀ c ∈ close, isBlank c = true) {xs : List Json} {ts : List (List Char)}
    (h : List.Forall₂ (fun x t => Written t x) xs ts) (hne : xs ≠ []) :
    ∀ n rest, costElements xs ≤ n →
      readElements n (joined (',' :: gap) ts ++ (close ++ ']' :: rest)) = some (xs, rest) := by
  induction h with
  | nil => exact absurd rfl hne
  | @cons x t xs ts hx hxs ih =>
    intro n rest hn
    simp only [costElements] at hn
    obtain ⟨m, rfl⟩ : ∃ m, n = m + 1 := ⟨n - 1, by omega⟩
    cases hxs with
    | nil =>
      have hr := hx.reads m (close ++ ']' :: rest) (by omega) (follow_close hclose (by simp) rest)
      simp only [joined]
      rw [readElements, hr]
      simp [skipBlanks_close hclose (c := ']') (by decide)]
    | @cons y u ys us hy hys =>
      have hr := hx.reads m
        (',' :: (gap ++ (joined (',' :: gap) (u :: us) ++ (close ++ ']' :: rest)))) (by omega)
        (follow_close (b := []) (by simp) (by simp) _)
      have hrest := ih (by simp) m rest (by omega)
      rw [← readElements_skipBlanks, ← skipBlanks_append hgap, readElements_skipBlanks] at hrest
      simp only [joined, List.append_assoc, List.cons_append] at hr ⊢
      rw [readElements, hr]
      simp [skipBlanks_solid (c := ',') (by decide), hrest]

theorem costElements_le (gap : List Char) {xs : List Json} {ts : List (List Char)}
    (h : List.Forall₂ (fun x t => Written t x) xs ts) :
    costElements xs ≤ (joined (',' :: gap) ts).length + 1 := by
  induction h with
  | nil => simp [costElements]
  | @cons x t xs ts hx hxs ih =>
    have := hx.cost_le
    cases hxs with
    | nil => simp [costElements, joined]; omega
    | cons hy hys =>
      simp only [costElements, joined, List.length_append, List.length_cons] at ih ⊢
      omega

theorem joined_head (gap : List Char)
    (hclose : ∀ c ∈ close, isBlank c = true) {x : Json} {xs : List Json} {ts : List (List Char)}
    (h : List.Forall₂ (fun x t => Written t x) (x :: xs) ts) (rest r : List Char) :
    skipBlanks (joined (',' :: gap) ts ++ (close ++ ']' :: rest)) ≠ ']' :: r := by
  cases h with
  | @cons _ t _ ts hx hxs =>
    cases hxs with
    | nil => exact hx.head_ne (follow_close hclose (by simp) rest) r
    | cons hy hys =>
      simp only [joined, List.append_assoc, List.cons_append]
      exact hx.head_ne (follow_close (b := []) (by simp) (by simp) _) r

/-- A bracketed, comma separated sequence of texts is a text of the array. -/
theorem written_array {opening : List Char} (hopen : ∀ c ∈ opening, isBlank c = true)
    (hgap : ∀ c ∈ gap, isBlank c = true) (hclose : ∀ c ∈ close, isBlank c = true)
    {xs : List Json} {ts : List (List Char)}
    (h : List.Forall₂ (fun x t => Written t x) xs ts) (hne : xs ≠ []) :
    Written ('[' :: (opening ++ (joined (',' :: gap) ts ++ (close ++ [']'])))) (.arr xs) := by
  constructor
  · intro n rest hn _
    simp only [cost] at hn
    obtain ⟨m, rfl⟩ : ∃ m, n = m + 1 := ⟨n - 1, by omega⟩
    have hr := readElements_joined hgap hclose h hne m rest (by omega)
    cases xs with
    | nil => exact absurd rfl hne
    | cons x xs =>
      have hh := joined_head gap hclose h rest
      simp only [List.cons_append, List.append_assoc, List.nil_append]
      rw [readValue, skipBlanks_solid (by decide)]
      simp only [skipBlanks_append hopen]
      rw [← readElements_skipBlanks] at hr
      simp [hr]
  · have := costElements_le gap h
    simp only [cost, List.length_cons, List.length_append, List.length_nil]
    omega

end Elements

section Members

variable {L : Layout} {gap close : List Char}

def memberText (L : Layout) (k : String) (t : List Char) : List Char :=
  quoted L k ++ ':' :: (L.afterColon ++ t)

def WrittenMember (L : Layout) (kv : String × Json) (m : List Char) : Prop :=
  ∃ t, m = memberText L kv.1 t ∧ Written t kv.2

/-- One member is read up to its follower, which decides whether another one comes. -/
theorem readMembers_member {kv : String × Json} {m : List Char} (h : WrittenMember L kv m)
    {n : ℕ} {rest : List Char} (hn : cost kv.2 ≤ n) (hf : Follow rest) :
    readMembers (n + 1) (m ++ rest) =
      match skipBlanks rest with
      | ',' :: r => (readMembers n r).map fun p => (kv :: p.1, p.2)
      | '}' :: r => some ([kv], r)
      | _ => none := by
  obtain ⟨t, rfl, ht⟩ := h
  obtain ⟨k, v⟩ := kv
  have hv := ht.reads n rest hn hf
  rw [← readValue_skipBlanks, ← skipBlanks_append L.colon_blank, readValue_skipBlanks] at hv
  have hk := readString_literal L k (':' :: (L.afterColon ++ (t ++ rest)))
  simp only at hk
  have hread : readMembers (n + 1) (memberText L k t ++ rest) =
      readMembers (n + 1) (memberText L k t ++ rest) := rfl
  conv_rhs at hread =>
    simp only [memberText, quoted, List.cons_append, List.append_assoc, List.nil_append]
    rw [readMembers, skipBlanks_solid (by decide)]
    simp only [hk, skipBlanks_solid (c := ':') (by decide), hv, String.ofList_toList]
  exact hread

theorem readMembers_joined (hgap : ∀ c ∈ gap, isBlank c = true)
    (hclose : ∀ c ∈ close, isBlank c = true) {kvs : List (String × Json)}
    {ms : List (List Char)} (h : List.Forall₂ (WrittenMember L) kvs ms) (hne : kvs ≠ []) :
    ∀ n rest, costMembers kvs ≤ n →
      readMembers n (joined (',' :: gap) ms ++ (close ++ '}' :: rest)) = some (kvs, rest) := by
  induction h with
  | nil => exact absurd rfl hne
  | @cons kv t kvs ts hx hxs ih =>
    intro n rest hn
    simp only [costMembers] at hn
    obtain ⟨m, rfl⟩ : ∃ m, n = m + 1 := ⟨n - 1, by omega⟩
    cases hxs with
    | nil =>
      simp only [joined]
      rw [readMembers_member hx (by omega) (follow_close hclose (by simp) rest)]
      simp [skipBlanks_close hclose (c := '}') (by decide)]
    | @cons lw u kvs us hy hys =>
      have hrest := ih (by simp) m rest (by omega)
      rw [← readMembers_skipBlanks, ← skipBlanks_append hgap, readMembers_skipBlanks] at hrest
      simp only [joined, List.append_assoc, List.cons_append]
      rw [readMembers_member hx (show cost kv.2 ≤ m by omega) (follow_cons (by decide))]
      simp [skipBlanks_solid (c := ',') (by decide), hrest]

theorem costMembers_le (gap : List Char) {kvs : List (String × Json)} {ms : List (List Char)}
    (h : List.Forall₂ (WrittenMember L) kvs ms) :
    costMembers kvs ≤ (joined (',' :: gap) ms).length + 1 := by
  induction h with
  | nil => simp [costMembers]
  | @cons kv m kvs ms hx hxs ih =>
    obtain ⟨t, rfl, ht⟩ := hx
    have := ht.cost_le
    cases hxs with
    | nil => simp [costMembers, joined, memberText]; omega
    | cons hy hys =>
      simp only [costMembers, joined, memberText, List.length_append, List.length_cons] at ih ⊢
      omega

theorem written_object {opening : List Char} (hopen : ∀ c ∈ opening, isBlank c = true)
    (hgap : ∀ c ∈ gap, isBlank c = true) (hclose : ∀ c ∈ close, isBlank c = true)
    {kvs : List (String × Json)} {ms : List (List Char)}
    (h : List.Forall₂ (WrittenMember L) kvs ms) (hne : kvs ≠ []) :
    Written ('{' :: (opening ++ (joined (',' :: gap) ms ++ (close ++ ['}'])))) (.obj kvs) := by
  constructor
  · intro n rest hn _
    simp only [cost] at hn
    obtain ⟨m, rfl⟩ : ∃ m, n = m + 1 := ⟨n - 1, by omega⟩
    have hr := readMembers_joined hgap hclose h hne m rest (by omega)
    cases h with
    | nil => exact absurd rfl hne
    | @cons kv t kvs ts hx hxs =>
      obtain ⟨u, rfl, _⟩ := hx
      have hq : ∃ r, joined (',' :: gap) (memberText L kv.1 u :: ts) ++ (close ++ '}' :: rest) =
          '"' :: r := by
        cases ts <;> simp [joined, memberText, quoted]
      obtain ⟨r, hq⟩ := hq
      simp only [List.cons_append, List.append_assoc, List.nil_append]
      rw [hq] at hr
      rw [readValue, skipBlanks_solid (by decide)]
      simp [skipBlanks_append hopen, hq, skipBlanks_solid (c := '"') (by decide), hr]
  · have := costMembers_le gap h
    simp only [cost, List.length_cons, List.length_append, List.length_nil]
    omega

end Members

/-! ## Rendered values -/

theorem written_quoted (L : Layout) (s : String) : Written (quoted L s) (.str s) := by
  constructor
  · intro n rest hn _
    obtain ⟨m, rfl⟩ : ∃ m, n = m + 1 := ⟨n - 1, by simp only [cost] at hn; omega⟩
    have hs := readString_literal L s rest
    simp only at hs
    simp only [quoted, List.cons_append, List.append_assoc, List.nil_append]
    rw [readValue, skipBlanks_solid (by decide)]
    simp only [hs, Option.map_some, String.ofList_toList]
  · simp [cost, quoted]

theorem number_head (x : Number) : ∃ c r, x.text = c :: r ∧
    (c = '-' ∨ ∃ d : Digit, c = digitChar d) := by
  obtain ⟨d, ds, hw⟩ := whole_head x.whole
  cases hn : x.negative with
  | true => exact ⟨'-', _, by simp only [Number.text, hn]; rfl, Or.inl rfl⟩
  | false => exact ⟨digitChar d, _, by simp only [Number.text, hn, hw]; rfl, Or.inr ⟨d, rfl⟩⟩

theorem number_head_ne {c : Char} (h : c = '-' ∨ ∃ d : Digit, c = digitChar d) :
    isBlank c = false ∧ c ≠ 'n' ∧ c ≠ 't' ∧ c ≠ 'f' ∧ c ≠ '"' ∧ c ≠ '[' ∧ c ≠ '{' := by
  have hd : ∀ d : Digit, isBlank (digitChar d) = false ∧ digitChar d ≠ 'n' ∧
      digitChar d ≠ 't' ∧ digitChar d ≠ 'f' ∧ digitChar d ≠ '"' ∧ digitChar d ≠ '[' ∧
      digitChar d ≠ '{' := by decide
  rcases h with rfl | ⟨d, rfl⟩
  · decide
  · exact hd d

theorem written_number (x : Number) : Written x.text (.num x) := by
  obtain ⟨c, r, hx, hc⟩ := number_head x
  obtain ⟨hb, h₁, h₂, h₃, h₄, h₅, h₆⟩ := number_head_ne hc
  constructor
  · intro n rest hn hf
    obtain ⟨m, rfl⟩ : ∃ m, n = m + 1 := ⟨n - 1, by simp only [cost] at hn; omega⟩
    have hr := readNumber_text x hf
    rw [hx] at hr ⊢
    simp only [List.cons_append] at hr ⊢
    rw [readValue, skipBlanks_solid hb]
    simp [h₁, h₂, h₃, h₄, h₅, h₆, hr]
  · simp [cost, hx]

theorem written_bracketed_array (L : Layout) (depth : ℕ) {xs : List Json}
    {ts : List (List Char)} (h : List.Forall₂ (fun x t => Written t x) xs ts) :
    Written (bracketed L depth '[' ']' ts) (.arr xs) := by
  cases h with
  | nil =>
    constructor
    · intro n rest hn _
      obtain ⟨m, rfl⟩ : ∃ m, n = m + 1 := ⟨n - 1, by simp only [cost] at hn; omega⟩
      simp [bracketed, readValue, skipBlanks_solid (c := '[') (by decide),
        skipBlanks_solid (c := ']') (by decide)]
    · simp [bracketed, cost, costElements]
  | cons hx hxs =>
    exact written_array (L.gap_blank _) (L.gap_blank _) (L.gap_blank _) (.cons hx hxs) (by simp)

theorem written_bracketed_object (L : Layout) (depth : ℕ) {kvs : List (String × Json)}
    {ms : List (List Char)} (h : List.Forall₂ (WrittenMember L) kvs ms) :
    Written (bracketed L depth '{' '}' ms) (.obj kvs) := by
  cases h with
  | nil =>
    constructor
    · intro n rest hn _
      obtain ⟨m, rfl⟩ : ∃ m, n = m + 1 := ⟨n - 1, by simp only [cost] at hn; omega⟩
      simp [bracketed, readValue, skipBlanks_solid (c := '{') (by decide),
        skipBlanks_solid (c := '}') (by decide)]
    · simp [bracketed, cost, costMembers]
  | cons hx hxs =>
    exact written_object (L.gap_blank _) (L.gap_blank _) (L.gap_blank _) (.cons hx hxs) (by simp)

mutual
theorem written_render (L : Layout) : ∀ (v : Json) (depth : ℕ), Written (render L depth v) v
  | .null, depth => by
    constructor
    · intro n rest hn _
      obtain ⟨m, rfl⟩ : ∃ m, n = m + 1 := ⟨n - 1, by simp only [cost] at hn; omega⟩
      simp [render, readValue, skipBlanks_solid (c := 'n') (by decide)]
    · simp [cost, render]
  | .bool true, depth => by
    constructor
    · intro n rest hn _
      obtain ⟨m, rfl⟩ : ∃ m, n = m + 1 := ⟨n - 1, by simp only [cost] at hn; omega⟩
      simp [render, readValue, skipBlanks_solid (c := 't') (by decide)]
    · simp [cost, render]
  | .bool false, depth => by
    constructor
    · intro n rest hn _
      obtain ⟨m, rfl⟩ : ∃ m, n = m + 1 := ⟨n - 1, by simp only [cost] at hn; omega⟩
      simp [render, readValue, skipBlanks_solid (c := 'f') (by decide)]
    · simp [cost, render]
  | .num x, depth => written_number x
  | .str s, depth => written_quoted L s
  | .arr xs, depth => written_bracketed_array L depth (written_elements L xs (depth + 1))
  | .obj kvs, depth => written_bracketed_object L depth (written_members L kvs (depth + 1))

theorem written_elements (L : Layout) : ∀ (xs : List Json) (depth : ℕ),
    List.Forall₂ (fun x t => Written t x) xs (renderElements L depth xs)
  | [], _ => .nil
  | x :: xs, depth => .cons (written_render L x depth) (written_elements L xs depth)

theorem written_members (L : Layout) : ∀ (kvs : List (String × Json)) (depth : ℕ),
    List.Forall₂ (WrittenMember L) kvs (renderMembers L depth kvs)
  | [], _ => .nil
  | (_, v) :: kvs, depth =>
    .cons ⟨render L depth v, rfl, written_render L v depth⟩ (written_members L kvs depth)
end

/-! ## Whole texts -/

theorem Written.readFirst {t : List Char} {v : Json} (h : Written t v) {rest : List Char}
    (hf : Follow rest) : readFirst (t ++ rest) = some v := by
  have hr := h.reads ((t ++ rest).length + 1) rest
    (by have := h.cost_le; simp only [List.length_append]; omega) hf
  rw [JsonText.readFirst, hr]
  rfl

theorem Written.parse {t : List Char} {v : Json} (h : Written t v) {rest : List Char}
    (hb : ∀ c ∈ rest, isBlank c = true) : parse (t ++ rest) = some v := by
  have hf : Follow rest := by
    cases rest with
    | nil => exact follow_nil
    | cons c r => exact follow_blank (hb c (by simp))
  have hr := h.reads ((t ++ rest).length + 1) rest
    (by have := h.cost_le; simp only [List.length_append]; omega) hf
  have hs : skipBlanks rest = [] := by
    simpa [skipBlanks] using skipBlanks_append hb []
  rw [JsonText.parse, hr]
  simp [hs]

theorem parse_render (L : Layout) (v : Json) : parse (render L 0 v) = some v := by
  have h := (written_render L v 0).parse (List.forall_mem_nil _)
  rwa [List.append_nil] at h

theorem render_inj {L M : Layout} {v w : Json} : render L 0 v = render M 0 w → v = w := by
  intro h
  have hparse := congrArg JsonText.parse h
  rw [parse_render, parse_render] at hparse
  exact Option.some.inj hparse

end JsonRoundTrip
