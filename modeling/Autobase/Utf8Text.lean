import Mathlib.Data.List.TakeWhile

/-! # UTF-8

Bytes read as text. A byte that begins no well-formed sequence is read as the replacement
character, and the reader goes on with the byte after it. -/
namespace Utf8Text

def replacement : Char := Char.ofNat 0xfffd

/-- A byte outside ASCII. -/
def high (b : UInt8) : Bool := decide (0x80 ≤ b.toNat)

def isTail (b : UInt8) : Bool := decide (0x80 ≤ b.toNat ∧ b.toNat < 0xc0)

/-- The code that `k` tails add six bits each to. -/
def readTails : ℕ → ℕ → List UInt8 → Option ℕ
  | 0, n, _ => some n
  | _ + 1, _, [] => none
  | k + 1, n, b :: r => if isTail b then readTails k (n * 64 + b.toNat % 64) r else none

/-- Shortest form only, and no surrogates. -/
def wellFormed (least n : ℕ) : Bool :=
  decide (least ≤ n ∧ (n < 0xd800 ∨ 0xdfff < n ∧ n < 0x110000))

/-- A character and the number of bytes it takes besides the first. -/
def readSequence (k least n : ℕ) (r : List UInt8) : Char × ℕ :=
  match readTails k n r with
  | some m => if wellFormed least m then (Char.ofNat m, k) else (replacement, 0)
  | none => (replacement, 0)

def readRune (a : UInt8) (r : List UInt8) : Char × ℕ :=
  if a.toNat < 0x80 then (Char.ofNat a.toNat, 0)
  else if a.toNat < 0xc0 then (replacement, 0)
  else if a.toNat < 0xe0 then readSequence 1 0x80 (a.toNat % 32) r
  else if a.toNat < 0xf0 then readSequence 2 0x800 (a.toNat % 16) r
  else if a.toNat < 0xf8 then readSequence 3 0x10000 (a.toNat % 8) r
  else (replacement, 0)

/-- The first bytes belong to the character before. -/
def readFrom : ℕ → List UInt8 → List Char
  | _, [] => []
  | 0, a :: r => (readRune a r).1 :: readFrom (readRune a r).2 r
  | k + 1, _ :: r => readFrom k r

def readText (bs : List UInt8) : List Char := readFrom 0 bs

/-! ## One character -/

theorem high_of_isTail {b : UInt8} (h : isTail b = true) : high b = true := by
  simp only [isTail, decide_eq_true_eq] at h
  simp only [high, decide_eq_true_eq]
  exact h.1

theorem readTails_length {k n m : ℕ} {r : List UInt8} (h : readTails k n r = some m) :
    k ≤ (r.takeWhile high).length := by
  induction k generalizing n r with
  | zero => exact Nat.zero_le _
  | succ k ih =>
    cases r with
    | nil => cases h
    | cons b r =>
      simp only [readTails] at h
      split at h
      · next ht =>
        rw [List.takeWhile_cons_of_pos (high_of_isTail ht), List.length_cons]
        exact Nat.succ_le_succ (ih h)
      · cases h

theorem readTails_takeWhile (k n : ℕ) (r : List UInt8) :
    readTails k n (r.takeWhile high) = readTails k n r := by
  induction k generalizing n r with
  | zero => rfl
  | succ k ih =>
    cases r with
    | nil => rfl
    | cons b r =>
      by_cases ht : isTail b = true
      · rw [List.takeWhile_cons_of_pos (high_of_isTail ht)]
        simp only [readTails, ht, if_true]
        exact ih _ r
      · by_cases hb : high b = true
        · simp [List.takeWhile_cons_of_pos hb, readTails, ht]
        · simp [List.takeWhile_cons_of_neg hb, readTails, ht]

theorem readRune_ascii {a : UInt8} (h : high a = false) (r : List UInt8) :
    readRune a r = (Char.ofNat a.toNat, 0) := by
  have hlt : a.toNat < 0x80 := by simpa [high] using h
  simp [readRune, hlt]

/-- Only the bytes outside ASCII that follow are looked at. -/
theorem readRune_takeWhile (a : UInt8) (r : List UInt8) :
    readRune a (r.takeWhile high) = readRune a r := by
  simp only [readRune, readSequence, readTails_takeWhile]

theorem toNat_ofNat {n : ℕ} (h : n < 0xd800 ∨ 0xdfff < n ∧ n < 0x110000) :
    (Char.ofNat n).toNat = n := by
  rw [Char.ofNat]
  rw [dif_pos h]
  rfl

/-- A character of a sequence lies outside ASCII, and takes bytes outside ASCII only; it is
shorter than the sequence unless nothing could be read. -/
theorem readSequence_spec {k least n : ℕ} (hleast : 0x80 ≤ least) (hk : 0 < k) (r : List UInt8) :
    (readSequence k least n r).2 ≤ (r.takeWhile high).length ∧
      0x80 ≤ (readSequence k least n r).1.toNat ∧
      ((readSequence k least n r).1 = replacement ∨ 0 < (readSequence k least n r).2) := by
  rw [readSequence]
  split
  · next m hm =>
    split
    · next hw =>
      simp only [wellFormed, decide_eq_true_eq] at hw
      refine ⟨readTails_length hm, ?_, Or.inr hk⟩
      rw [toNat_ofNat hw.2]
      omega
    · exact ⟨Nat.zero_le _, by decide, Or.inl rfl⟩
  · exact ⟨Nat.zero_le _, by decide, Or.inl rfl⟩

theorem readRune_high {a : UInt8} (h : high a = true) (r : List UInt8) :
    (readRune a r).2 ≤ (r.takeWhile high).length ∧ 0x80 ≤ (readRune a r).1.toNat ∧
      ((readRune a r).1 = replacement ∨ 0 < (readRune a r).2) := by
  have hge : ¬ a.toNat < 0x80 := by simpa [high] using h
  have hnone : ((replacement, 0) : Char × ℕ).2 ≤ (r.takeWhile high).length ∧
      0x80 ≤ ((replacement, 0) : Char × ℕ).1.toNat ∧
      (((replacement, 0) : Char × ℕ).1 = replacement ∨ 0 < ((replacement, 0) : Char × ℕ).2) :=
    ⟨Nat.zero_le _, by decide, Or.inl rfl⟩
  rw [readRune]
  rw [if_neg hge]
  split
  · exact hnone
  split
  · exact readSequence_spec (by decide) (by decide) r
  split
  · exact readSequence_spec (by decide) (by decide) r
  split
  · exact readSequence_spec (by decide) (by decide) r
  · exact hnone

/-! ## Texts -/

theorem readFrom_ascii {a : UInt8} (h : high a = false) (r : List UInt8) :
    readFrom 0 (a :: r) = Char.ofNat a.toNat :: readFrom 0 r := by
  simp only [readFrom, readRune_ascii h]

/-- No character reaches across a byte of ASCII. -/
theorem readFrom_append {k : ℕ} {u : List UInt8} (hk : k ≤ u.length) {a : UInt8}
    (ha : high a = false) (r : List UInt8) :
    readFrom k (u ++ a :: r) = readFrom k u ++ readFrom 0 (a :: r) := by
  induction u generalizing k with
  | nil =>
    obtain rfl : k = 0 := Nat.le_zero.mp hk
    rfl
  | cons b u ih =>
    cases k with
    | succ k => exact ih (Nat.le_of_succ_le_succ hk)
    | zero =>
      have hsame : readRune b (u ++ a :: r) = readRune b u := by
        rw [← readRune_takeWhile b (u ++ a :: r), ← readRune_takeWhile b u]
        congr 1
        rw [List.takeWhile_append]
        split
        · next hall =>
          have hwhole := (List.takeWhile_prefix high).eq_of_length hall
          simp [ha, hwhole]
        · rfl
      have hlen : (readRune b u).2 ≤ u.length := by
        by_cases hb : high b = true
        · exact Nat.le_trans (readRune_high hb u).1 (List.takeWhile_prefix high).length_le
        · rw [readRune_ascii (by simpa using hb)]
          exact Nat.zero_le _
      simp only [List.cons_append, readFrom, hsame, ih hlen]

/-! ## Latin-1 bytes -/

/-- The byte of a character below 256. -/
def latin1 (c : Char) : UInt8 := UInt8.ofNat c.toNat

/-- A text written in Latin-1 and read in UTF-8. -/
def reread (cs : List Char) : List Char := readText (cs.map latin1)

theorem latin1_toNat {c : Char} (h : c.toNat < 256) : (latin1 c).toNat = c.toNat :=
  Nat.mod_eq_of_lt h

theorem high_latin1 {c : Char} (h : c.toNat < 256) :
    high (latin1 c) = decide (0x80 ≤ c.toNat) := by
  rw [high, latin1_toNat h]

theorem reread_cons {c : Char} (h : c.toNat < 0x80) (cs : List Char) :
    reread (c :: cs) = c :: reread cs := by
  have hlt : c.toNat < 256 := by omega
  have hlow : high (latin1 c) = false := by
    rw [high_latin1 hlt]
    simpa using h
  simp only [reread, readText, List.map_cons, readFrom_ascii hlow, latin1_toNat hlt,
    Char.ofNat_toNat]

theorem reread_ascii {x : List Char} (h : ∀ c ∈ x, c.toNat < 0x80) (y : List Char) :
    reread (x ++ y) = x ++ reread y := by
  induction x with
  | nil => rfl
  | cons c x ih =>
    rw [List.cons_append, reread_cons (h c List.mem_cons_self),
      ih fun d hd => h d (List.mem_cons_of_mem _ hd), List.cons_append]

theorem reread_append {u : List Char} {a : Char} (ha : a.toNat < 0x80) (y : List Char) :
    reread (u ++ a :: y) = reread u ++ reread (a :: y) := by
  have hlow : high (latin1 a) = false := by
    rw [high_latin1 (by omega)]
    simpa using ha
  simp only [reread, readText, List.map_append, List.map_cons]
  exact readFrom_append (Nat.zero_le _) hlow _

theorem readFrom_length {k : ℕ} {bs : List UInt8} (hk : k ≤ bs.length) :
    (readFrom k bs).length + k ≤ bs.length := by
  induction bs generalizing k with
  | nil => simpa [readFrom] using hk
  | cons a r ih =>
    cases k with
    | succ k =>
      have hrest := ih (Nat.le_of_succ_le_succ hk)
      simp only [readFrom, List.length_cons]
      omega
    | zero =>
      have htaken : (readRune a r).2 ≤ r.length := by
        by_cases ha : high a = true
        · exact Nat.le_trans (readRune_high ha r).1 (List.takeWhile_prefix high).length_le
        · rw [readRune_ascii (by simpa using ha)]
          exact Nat.zero_le _
      have hrest := ih htaken
      simp only [readFrom, List.length_cons]
      omega

/-- Only ASCII survives: a sequence of bytes becomes one character, and a byte that belongs to
none is replaced. -/
theorem reread_eq_self {cs : List Char} (h : ∀ c ∈ cs, c.toNat < 256) :
    reread cs = cs ↔ ∀ c ∈ cs, c.toNat < 0x80 := by
  constructor
  · intro hsame
    induction cs with
    | nil => simp
    | cons c cs ih =>
      by_cases hc : c.toNat < 0x80
      · rw [reread_cons hc] at hsame
        have hrest := ih (fun d hd => h d (List.mem_cons_of_mem _ hd)) (List.cons.inj hsame).2
        exact List.forall_mem_cons.mpr ⟨hc, hrest⟩
      · exfalso
        have hlt := h c List.mem_cons_self
        have hhigh : high (latin1 c) = true := by
          rw [high_latin1 hlt]
          simpa using hc
        obtain ⟨htaken, -, hrune⟩ := readRune_high hhigh (cs.map latin1)
        simp only [reread, readText, List.map_cons, readFrom, List.cons.injEq] at hsame
        obtain ⟨hfirst, hrest⟩ := hsame
        have hlen := readFrom_length (Nat.le_trans htaken (List.takeWhile_prefix high).length_le)
        rw [hrest, List.length_map] at hlen
        rcases hrune with hrune | hrune
        · rw [hrune] at hfirst
          rw [← hfirst] at hlt
          exact absurd hlt (by decide)
        · omega
  · intro hascii
    have hwhole := reread_ascii hascii []
    simpa [reread, readText, readFrom] using hwhole

end Utf8Text
