import Autobase.JsonText
import Mathlib.Data.List.Sort

/-! # The ASCII layout

A writer that prints one member a line with a fixed indentation and escapes everything
outside printable ASCII: two letter escapes where there are any, otherwise the code in four
lower-case digits, and two surrogates above the basic plane. -/
namespace JsonAscii

open JsonText

def hexChar (n : ℕ) : Char := if n < 10 then Char.ofNat (48 + n) else Char.ofNat (87 + n)

def hex4 (n : ℕ) : List Char :=
  [hexChar (n / 4096 % 16), hexChar (n / 256 % 16), hexChar (n / 16 % 16), hexChar (n % 16)]

def codeEscape (n : ℕ) : List Char := '\\' :: 'u' :: hex4 n

def asciiEscape (c : Char) : List Char :=
  if c = '"' then ['\\', '"']
  else if c = '\\' then ['\\', '\\']
  else if c = '\n' then ['\\', 'n']
  else if c = '\r' then ['\\', 'r']
  else if c = '\t' then ['\\', 't']
  else if c.toNat = 12 then ['\\', 'f']
  else if c.toNat = 8 then ['\\', 'b']
  else if 32 ≤ c.toNat ∧ c.toNat ≤ 126 then [c]
  else if c.toNat < 0x10000 then codeEscape c.toNat
  else
    codeEscape (0xd800 + (c.toNat - 0x10000) / 0x400) ++
      codeEscape (0xdc00 + (c.toNat - 0x10000) % 0x400)

theorem hexDigit?_hexChar : ∀ d : Fin 16, hexDigit? (hexChar d.val) = some d.val := by decide

theorem readHex4_hex4 {n : ℕ} (h : n < 65536) (rest : List Char) :
    readHex4 (hex4 n ++ rest) = some (n, rest) := by
  have hd : ∀ k : ℕ, hexDigit? (hexChar (k % 16)) = some (k % 16) := fun k =>
    hexDigit?_hexChar ⟨k % 16, Nat.mod_lt k (by decide)⟩
  simp only [hex4, List.cons_append, List.nil_append, readHex4, hd, Option.some.injEq,
    Prod.mk.injEq, and_true]
  omega

theorem readUnicode_code {n : ℕ} (h : n < 0xd800 ∨ 0xdfff < n ∧ n < 0x10000) (rest : List Char) :
    readUnicode (hex4 n ++ rest) = some (Char.ofNat n, rest) := by
  have hhi : isHighSurrogate n = false := by
    simp only [isHighSurrogate, decide_eq_false_iff_not]
    omega
  have hlo : isLowSurrogate n = false := by
    simp only [isLowSurrogate, decide_eq_false_iff_not]
    omega
  rw [readUnicode, readHex4_hex4 (by omega)]
  simp [hhi, hlo]

theorem readUnicode_pair {hi lo : ℕ} (hhi : hi < 0x400) (hlo : lo < 0x400) (rest : List Char) :
    readUnicode (hex4 (0xd800 + hi) ++ (codeEscape (0xdc00 + lo) ++ rest)) =
      some (Char.ofNat (0x10000 + hi * 0x400 + lo), rest) := by
  have h₁ : isHighSurrogate (0xd800 + hi) = true := by
    simp only [isHighSurrogate, decide_eq_true_eq]
    omega
  have h₂ : isLowSurrogate (0xdc00 + lo) = true := by
    simp only [isLowSurrogate, decide_eq_true_eq]
    omega
  rw [readUnicode, readHex4_hex4 (by omega)]
  simp only [h₁, if_true, codeEscape, List.cons_append,
    readHex4_hex4 (show 0xdc00 + lo < 65536 by omega), h₂, Nat.add_sub_cancel_left]

theorem char_codes (c : Char) :
    c.toNat < 0xd800 ∨ 0xdfff < c.toNat ∧ c.toNat < 0x110000 := by
  rcases c.valid with h | ⟨h₁, h₂⟩
  · exact Or.inl h
  · exact Or.inr ⟨h₁, h₂⟩

theorem readChar_plain {c : Char} (hq : c ≠ '"') (hb : c ≠ '\\') (hp : 32 ≤ c.toNat)
    (rest : List Char) : readChar (c :: rest) = some (c, rest) := by
  unfold readChar
  split
  · next h => cases h
  · next h => exact absurd (List.cons.inj h).1 hb
  · next h => exact absurd (List.cons.inj h).1 hb
  · next h =>
    obtain ⟨rfl, rfl⟩ := List.cons.inj h
    have hcontrol : ¬ c.toNat < 32 := Nat.not_lt.mpr hp
    simp [hq, hb, hcontrol]

theorem readChar_control {c : Char} (hb : c ≠ '\\') (hp : c.toNat < 32) (rest : List Char) :
    readChar (c :: rest) = none := by
  unfold readChar
  split
  · rfl
  · next h => exact absurd (List.cons.inj h).1 hb
  · next h => exact absurd (List.cons.inj h).1 hb
  · next h =>
    obtain ⟨rfl, rfl⟩ := List.cons.inj h
    simp [hp]

theorem readChar_code {c : Char} (h : c.toNat < 0x10000) (rest : List Char) :
    readChar (codeEscape c.toNat ++ rest) = some (c, rest) := by
  have hc := char_codes c
  have hread := readUnicode_code (n := c.toNat) (by omega) rest
  simpa [codeEscape, readChar, Char.ofNat_toNat] using hread

/-- Seven characters have a short escape of their own; the other ones are written as `other`. -/
theorem readChar_shortEscape {c : Char} {other : List Char} (rest : List Char)
    (hother : c ≠ '"' → c ≠ '\\' → readChar (other ++ rest) = some (c, rest)) :
    readChar ((if c = '"' then ['\\', '"']
      else if c = '\\' then ['\\', '\\']
      else if c = '\n' then ['\\', 'n']
      else if c = '\r' then ['\\', 'r']
      else if c = '\t' then ['\\', 't']
      else if c.toNat = 12 then ['\\', 'f']
      else if c.toNat = 8 then ['\\', 'b']
      else other) ++ rest) = some (c, rest) := by
  by_cases h₁ : c = '"'
  · subst h₁; rfl
  by_cases h₂ : c = '\\'
  · subst h₂; rfl
  by_cases h₃ : c = '\n'
  · subst h₃; rfl
  by_cases h₄ : c = '\r'
  · subst h₄; rfl
  by_cases h₅ : c = '\t'
  · subst h₅; rfl
  by_cases h₆ : c.toNat = 12
  · obtain rfl : c = Char.ofNat 12 := by rw [← h₆, Char.ofNat_toNat]
    rfl
  by_cases h₇ : c.toNat = 8
  · obtain rfl : c = Char.ofNat 8 := by rw [← h₇, Char.ofNat_toNat]
    rfl
  simp only [h₁, h₂, h₃, h₄, h₅, h₆, h₇, if_false]
  exact hother h₁ h₂

theorem readChar_asciiEscape (c : Char) (rest : List Char) :
    readChar (asciiEscape c ++ rest) = some (c, rest) := by
  rw [asciiEscape]
  refine readChar_shortEscape rest fun h₁ h₂ => ?_
  split
  · next hp =>
    -- a printable character stands for itself
    rw [List.singleton_append, readChar_plain h₁ h₂ (by omega)]
  · split
    · next hlt => exact readChar_code hlt rest
    · next hge =>
      have hc := char_codes c
      have hhi : (c.toNat - 0x10000) / 0x400 < 0x400 := by omega
      have hlo : (c.toNat - 0x10000) % 0x400 < 0x400 := by omega
      have hread := readUnicode_pair hhi hlo rest
      have hcode : 0x10000 + (c.toNat - 0x10000) / 0x400 * 0x400 +
          (c.toNat - 0x10000) % 0x400 = c.toNat := by omega
      rw [hcode, Char.ofNat_toNat] at hread
      simpa [codeEscape, readChar] using hread

/-- `indent` blanks for each level. -/
def asciiLayout (indent : ℕ) : Layout where
  gap depth := '\n' :: List.replicate (indent * depth) ' '
  afterColon := [' ']
  escape := asciiEscape
  gap_blank := by
    intro n c hc
    rcases List.mem_cons.mp hc with rfl | hc
    · rfl
    · rw [List.eq_of_mem_replicate hc]
      rfl
  colon_blank := List.all_eq_true.mp rfl
  escape_reads := readChar_asciiEscape

/-! ## The compact layout

No blanks at all; besides the control characters, three characters of HTML and two line
separators are written as codes. -/

def compactEscape (c : Char) : List Char :=
  if c = '"' then ['\\', '"']
  else if c = '\\' then ['\\', '\\']
  else if c = '\n' then ['\\', 'n']
  else if c = '\r' then ['\\', 'r']
  else if c = '\t' then ['\\', 't']
  else if c.toNat = 12 then ['\\', 'f']
  else if c.toNat = 8 then ['\\', 'b']
  else if c.toNat < 32 ∨ c ∈ ['<', '>', '&'] ∨ c.toNat = 0x2028 ∨ c.toNat = 0x2029 then
    codeEscape c.toNat
  else [c]

theorem readChar_compactEscape (c : Char) (rest : List Char) :
    readChar (compactEscape c ++ rest) = some (c, rest) := by
  rw [compactEscape]
  refine readChar_shortEscape rest fun h₁ h₂ => ?_
  split
  · next h =>
    apply readChar_code
    rcases h with h | h | h | h
    · omega
    · simp only [List.mem_cons, List.not_mem_nil, or_false] at h
      rcases h with rfl | rfl | rfl <;> decide
    · omega
    · omega
  · next h =>
    rw [List.singleton_append, readChar_plain h₁ h₂ (by omega)]

def compactLayout : Layout where
  gap _ := []
  afterColon := []
  escape := compactEscape
  gap_blank := by simp
  colon_blank := by simp
  escape_reads := readChar_compactEscape

/-! ## The verbatim layout

A text put between quotes as it is reads as itself while none of its characters needs an escape. -/

def standsForItself (c : Char) : Bool := c ≠ '"' && c ≠ '\\' && decide (32 ≤ c.toNat)

def verbatimEscape (c : Char) : List Char := if standsForItself c then [c] else asciiEscape c

theorem readChar_verbatimEscape (c : Char) (rest : List Char) :
    readChar (verbatimEscape c ++ rest) = some (c, rest) := by
  rw [verbatimEscape]
  split
  · next h =>
    simp only [standsForItself, Bool.and_eq_true, decide_eq_true_eq] at h
    exact readChar_plain h.1.1 h.1.2 h.2 rest
  · exact readChar_asciiEscape c rest

/-- `blanks` after each colon. -/
def verbatimLayout (blanks : ℕ) : Layout where
  gap _ := []
  afterColon := List.replicate blanks ' '
  escape := verbatimEscape
  gap_blank := by simp
  colon_blank := by
    intro c hc
    rw [List.eq_of_mem_replicate hc]
    rfl
  escape_reads := readChar_verbatimEscape

theorem quoted_verbatim {blanks : ℕ} {t : List Char} (h : ∀ c ∈ t, standsForItself c = true) :
    quoted (verbatimLayout blanks) (String.ofList t) = '"' :: (t ++ ['"']) := by
  have hone : ∀ c ∈ t, verbatimEscape c = [c] := fun c hc => if_pos (h c hc)
  have hflat : t.flatMap verbatimEscape = t := by
    rw [List.flatMap_congr hone, List.flatMap_singleton']
  rw [quoted, String.toList_ofList]
  exact congrArg (fun u => '"' :: (u ++ ['"'])) hflat

mutual
/-- The members of every object in the order of their keys. -/
def sortKeys : Json → Json
  | .arr xs => .arr (sortElements xs)
  | .obj kvs => .obj ((sortMembers kvs).insertionSort fun a b => a.1 ≤ b.1)
  | v => v

def sortElements : List Json → List Json
  | [] => []
  | x :: xs => sortKeys x :: sortElements xs

def sortMembers : List (String × Json) → List (String × Json)
  | [] => []
  | (k, v) :: kvs => (k, sortKeys v) :: sortMembers kvs
end

/-! ## Decimal numbers -/

theorem digitsValue_append (ds es : List Digit) :
    digitsValue (ds ++ es) = es.foldl (fun n d => 10 * n + d.val) (digitsValue ds) := by
  simp only [digitsValue, List.foldl_append]

theorem digitsValue_decimalDigits {fuel n : ℕ} (h : n < fuel) :
    digitsValue (decimalDigits fuel n) = n := by
  induction fuel generalizing n with
  | zero => exact absurd h (Nat.not_lt_zero n)
  | succ fuel ih =>
    rw [decimalDigits]
    split
    · next hn => simp [digitsValue, Fin.ofNat, Nat.mod_eq_of_lt hn]
    · next hn =>
      rw [digitsValue_append, ih (by omega)]
      simp only [List.foldl_cons, List.foldl_nil, Fin.ofNat, Nat.mod_mod]
      omega

theorem decimalDigits_head {fuel n : ℕ} (hn : 0 < n) (h : n < fuel) :
    ∃ d ds, decimalDigits fuel n = d :: ds ∧ d ≠ 0 := by
  induction fuel generalizing n with
  | zero => exact absurd h (Nat.not_lt_zero n)
  | succ fuel ih =>
    rw [decimalDigits]
    split
    · next hlt =>
      refine ⟨_, _, rfl, fun he => ?_⟩
      have hv := congrArg Fin.val he
      simp [Fin.ofNat, Nat.mod_eq_of_lt hlt] at hv
      omega
    · next hge =>
      obtain ⟨d, ds, he, hd⟩ := ih (n := n / 10) (by omega) (by omega)
      exact ⟨d, ds ++ [_], by rw [he]; rfl, hd⟩

theorem mantissa_ofNat (n : ℕ) : (Number.ofNat n).mantissa = n := by
  rcases Nat.eq_zero_or_pos n with rfl | hn
  · rfl
  · obtain ⟨d, ds, he, hd⟩ := decimalDigits_head hn (Nat.lt_succ_self n)
    have hv := digitsValue_decimalDigits (Nat.lt_succ_self n)
    simp only [Number.ofNat, Nat.succ_eq_add_one] at he hv ⊢
    rw [he] at hv
    simpa [he, hd, Number.mantissa, Whole.digitList] using hv

theorem scale_ofNat (n : ℕ) : (Number.ofNat n).scale = 0 := by
  rw [Number.ofNat]
  split
  · rfl
  · split <;> rfl

theorem fitsFloat64_ofNat (n : ℕ) : (Number.ofNat n).fitsFloat64 = decide (n < float64Limit) := by
  simp only [Number.fitsFloat64, scale_ofNat, mantissa_ofNat, Int.le_refl, if_true, Int.toNat_zero,
    Nat.pow_zero, Nat.mul_one]

end JsonAscii
