import Mathlib.Data.List.Basic

/-! # Base64

The standard alphabet with padding. The reader ignores line breaks and the unused bits of the
last group, and refuses everything else that is not well formed. -/
namespace Base64Text

def digitChar (n : ℕ) : Char :=
  if n < 26 then Char.ofNat (65 + n)
  else if n < 52 then Char.ofNat (71 + n)
  else if n < 62 then Char.ofNat (n - 4)
  else if n = 62 then '+'
  else '/'

def digit? (c : Char) : Option ℕ :=
  if 65 ≤ c.toNat ∧ c.toNat ≤ 90 then some (c.toNat - 65)
  else if 97 ≤ c.toNat ∧ c.toNat ≤ 122 then some (c.toNat - 71)
  else if 48 ≤ c.toNat ∧ c.toNat ≤ 57 then some (c.toNat + 4)
  else if c = '+' then some 62
  else if c = '/' then some 63
  else none

def encode : List UInt8 → List Char
  | [] => []
  | [a] => [digitChar (a.toNat / 4), digitChar (a.toNat % 4 * 16), '=', '=']
  | [a, b] =>
    [digitChar (a.toNat / 4), digitChar (a.toNat % 4 * 16 + b.toNat / 16),
      digitChar (b.toNat % 16 * 4), '=']
  | a :: b :: c :: bs =>
    digitChar (a.toNat / 4) :: digitChar (a.toNat % 4 * 16 + b.toNat / 16) ::
      digitChar (b.toNat % 16 * 4 + c.toNat / 64) :: digitChar (c.toNat % 64) :: encode bs

/-- The bytes of one group of four digits. -/
def firstByte (a b : ℕ) : UInt8 := UInt8.ofNat (a * 4 + b / 16)
def secondByte (b c : ℕ) : UInt8 := UInt8.ofNat (b % 16 * 16 + c / 4)
def thirdByte (c d : ℕ) : UInt8 := UInt8.ofNat (c % 4 * 64 + d)

/-- The last group may end in padding. -/
def decodeGroups : List Char → Option (List UInt8)
  | [] => some []
  | a :: b :: c :: d :: cs =>
    match digit? a, digit? b with
    | some a, some b =>
      if c = '=' then if d = '=' ∧ cs = [] then some [firstByte a b] else none
      else match digit? c with
        | none => none
        | some c =>
          if d = '=' then if cs = [] then some [firstByte a b, secondByte b c] else none
          else match digit? d with
            | none => none
            | some d =>
              (decodeGroups cs).map fun bs => firstByte a b :: secondByte b c :: thirdByte c d :: bs
    | _, _ => none
  | _ => none

def isBreak (c : Char) : Bool := c = '\n' || c = '\r'

def decode (cs : List Char) : Option (List UInt8) := decodeGroups (cs.filter fun c => !isBreak c)

/-! ## What decodes -/

/-- A text that decodes holds nothing but digits, padding and line breaks. -/
theorem decodeGroups_chars {cs : List Char} {bs : List UInt8} (h : decodeGroups cs = some bs) :
    ∀ x ∈ cs, (digit? x).isSome ∨ x = '=' := by
  induction cs using decodeGroups.induct generalizing bs with
  | case1 => simp
  | case2 a b d cs m n hb ha hpad =>
    obtain ⟨rfl, rfl⟩ := hpad
    simp [ha, hb]
  | case3 a b d cs m n hb ha hpad => simp [decodeGroups, ha, hb, hpad] at h
  | case4 a b c d cs m n hb ha hc hnone => simp [decodeGroups, ha, hb, hc, hnone] at h
  | case5 a b c m n hb ha hc k hk => simp [ha, hb, hk]
  | case6 a b c cs m n hb ha hc k hk hcs => simp [decodeGroups, ha, hb, hc, hk, hcs] at h
  | case7 a b c d cs m n hb ha hc k hk hd hnone =>
    simp [decodeGroups, ha, hb, hc, hk, hd, hnone] at h
  | case8 a b c d cs m n hb ha hc k hk hd l hl ih =>
    simp only [decodeGroups, ha, hb, hc, hk, hd, hl, if_false, Option.map_eq_some_iff] at h
    obtain ⟨bs', hbs, -⟩ := h
    simpa [ha, hb, hk, hl] using ih hbs
  | case9 a b c d cs hno =>
    rw [decodeGroups] at h
    split at h
    · next m n ha hb => exact (hno m n ha hb).elim
    · cases h
  | case10 t hnil hno =>
    match t with
    | [] => exact (hnil rfl).elim
    | [_] => cases h
    | [_, _] => cases h
    | [_, _, _] => cases h
    | _ :: _ :: _ :: _ :: _ => exact (hno _ _ _ _ _ rfl).elim

theorem decode_chars {cs : List Char} {bs : List UInt8} (h : decode cs = some bs) {x : Char}
    (hx : x ∈ cs) : (digit? x).isSome ∨ x = '=' ∨ isBreak x = true := by
  cases hb : isBreak x with
  | true => exact Or.inr (Or.inr rfl)
  | false =>
    have hkept : x ∈ cs.filter fun c => !isBreak c := by simp [hx, hb]
    exact (decodeGroups_chars h x hkept).imp_right Or.inl

theorem decode_break (cs : List Char) {c : Char} (hc : isBreak c = true) :
    decode (cs ++ [c]) = decode cs := by
  simp [decode, List.filter_append, hc]

/-! ## Reading back -/

theorem digit_facts : ∀ n : Fin 64, digit? (digitChar n.val) = some n.val ∧
    digitChar n.val ≠ '=' ∧ isBreak (digitChar n.val) = false := by
  decide

theorem digit?_digitChar {n : ℕ} (h : n < 64) : digit? (digitChar n) = some n :=
  (digit_facts ⟨n, h⟩).1

theorem digitChar_ne {n : ℕ} (h : n < 64) : digitChar n ≠ '=' := (digit_facts ⟨n, h⟩).2.1

theorem digitChar_solid {n : ℕ} (h : n < 64) : isBreak (digitChar n) = false :=
  (digit_facts ⟨n, h⟩).2.2

theorem firstByte_eq {a n : ℕ} {x : UInt8} (h : a * 4 + n / 16 = x.toNat) : firstByte a n = x := by
  rw [firstByte, h]
  exact UInt8.ofNat_toNat

theorem secondByte_eq {b c : ℕ} {x : UInt8} (h : b % 16 * 16 + c / 4 = x.toNat) :
    secondByte b c = x := by
  rw [secondByte, h]
  exact UInt8.ofNat_toNat

theorem thirdByte_eq {c d : ℕ} {x : UInt8} (h : c % 4 * 64 + d = x.toNat) : thirdByte c d = x := by
  rw [thirdByte, h]
  exact UInt8.ofNat_toNat

theorem decodeGroups_encode (bs : List UInt8) : decodeGroups (encode bs) = some bs := by
  induction bs using encode.induct with
  | case1 => rfl
  | case2 a =>
    have ha := a.toNat_lt
    simp only [encode, decodeGroups, digit?_digitChar (show a.toNat / 4 < 64 by omega),
      digit?_digitChar (show a.toNat % 4 * 16 < 64 by omega), if_true, and_self]
    rw [firstByte_eq (x := a) (by omega)]
  | case3 a b =>
    have ha := a.toNat_lt
    have hb := b.toNat_lt
    simp only [encode, decodeGroups, digit?_digitChar (show a.toNat / 4 < 64 by omega),
      digit?_digitChar (show a.toNat % 4 * 16 + b.toNat / 16 < 64 by omega),
      digitChar_ne (show b.toNat % 16 * 4 < 64 by omega), if_false,
      digit?_digitChar (show b.toNat % 16 * 4 < 64 by omega), if_true]
    rw [firstByte_eq (x := a) (by omega), secondByte_eq (x := b) (by omega)]
  | case4 a b c bs ih =>
    have ha := a.toNat_lt
    have hb := b.toNat_lt
    have hc := c.toNat_lt
    simp only [encode, decodeGroups, digit?_digitChar (show a.toNat / 4 < 64 by omega),
      digit?_digitChar (show a.toNat % 4 * 16 + b.toNat / 16 < 64 by omega),
      digitChar_ne (show b.toNat % 16 * 4 + c.toNat / 64 < 64 by omega), if_false,
      digit?_digitChar (show b.toNat % 16 * 4 + c.toNat / 64 < 64 by omega),
      digitChar_ne (show c.toNat % 64 < 64 by omega),
      digit?_digitChar (show c.toNat % 64 < 64 by omega), ih, Option.map_some]
    rw [firstByte_eq (x := a) (by omega), secondByte_eq (x := b) (by omega),
      thirdByte_eq (x := c) (by omega)]

theorem encode_solid (bs : List UInt8) : ∀ c ∈ encode bs, isBreak c = false := by
  induction bs using encode.induct with
  | case1 => simp [encode]
  | case2 a =>
    have ha := a.toNat_lt
    simp only [encode, List.forall_mem_cons, List.not_mem_nil, false_implies, implies_true]
    exact ⟨digitChar_solid (by omega), digitChar_solid (by omega), by decide, by decide⟩
  | case3 a b =>
    have ha := a.toNat_lt
    have hb := b.toNat_lt
    simp only [encode, List.forall_mem_cons, List.not_mem_nil, false_implies, implies_true]
    exact ⟨digitChar_solid (by omega), digitChar_solid (by omega), digitChar_solid (by omega),
      by decide⟩
  | case4 a b c bs ih =>
    have ha := a.toNat_lt
    have hb := b.toNat_lt
    have hc := c.toNat_lt
    simp only [encode, List.forall_mem_cons]
    exact ⟨digitChar_solid (by omega), digitChar_solid (by omega), digitChar_solid (by omega),
      digitChar_solid (by omega), ih⟩

theorem decode_encode (bs : List UInt8) : decode (encode bs) = some bs := by
  have hkept : (encode bs).filter (fun c => !isBreak c) = encode bs := by
    rw [List.filter_eq_self]
    intro c hc
    simp [encode_solid bs c hc]
  rw [decode, hkept, decodeGroups_encode]

theorem encode_ne_nil {bs : List UInt8} (h : bs ≠ []) : encode bs ≠ [] := by
  match bs with
  | [] => exact absurd rfl h
  | [_] => simp [encode]
  | [_, _] => simp [encode]
  | _ :: _ :: _ :: _ => simp [encode]

end Base64Text
