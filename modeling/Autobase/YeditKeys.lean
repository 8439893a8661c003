import Autobase.ClassPatterns
import Autobase.DocumentPlaces
import Mathlib.Data.Nat.Notation

/-! # The keys of yedit

A key such as `a.b[0]` names a place in a document. Two regular expressions read it: one says
whether the key is valid, the other finds the steps. They are formatted alike, but the first one
has no room for the separators. -/
namespace YeditKeys

open ClassPatterns DocumentPlaces

/-! ## The two expressions -/

def comSep : List Char := ['.', '#', '|', ':']

def commonSeparators (sep : String) : List Char :=
  comSep.filter fun c => decide (sep.toList ≠ [c])

/-- `[0-9a-zA-Z{}/_-]` -/
def isKeyChar (sep : String) (c : Char) : Bool :=
  c.isAlphanum || (commonSeparators sep).any (fun s => decide (s = c)) ||
    c = '/' || c = '_' || c = '-'

/-- `[0-9a-zA-Z%s/_-]`, in which the placeholder stands for itself. -/
def isValidChar (c : Char) : Bool :=
  c.isAlphanum || c = '%' || c = '/' || c = '_' || c = '-'

def sign : List Char → Bool × List Char
  | '-' :: cs => (true, cs)
  | cs => (false, cs)

def signed (negative : Bool) (n : ℕ) : ℤ := if negative then -n else n

/-- `\d` takes the decimal digits of every script: from each of these code points on there are ten
(Unicode 14, with which Python 3.11 comes). -/
def decimalZeros : List ℕ :=
  [0x30, 0x660, 0x6f0, 0x7c0, 0x966, 0x9e6, 0xa66, 0xae6, 0xb66, 0xbe6, 0xc66, 0xce6, 0xd66,
    0xde6, 0xe50, 0xed0, 0xf20, 0x1040, 0x1090, 0x17e0, 0x1810, 0x1946, 0x19d0, 0x1a80, 0x1a90,
    0x1b50, 0x1bb0, 0x1c40, 0x1c50, 0xa620, 0xa8d0, 0xa900, 0xa9d0, 0xa9f0, 0xaa50, 0xabf0,
    0xff10, 0x104a0, 0x10d30, 0x11066, 0x110f0, 0x11136, 0x111d0, 0x112f0, 0x11450, 0x114d0,
    0x11650, 0x116c0, 0x11730, 0x118e0, 0x11950, 0x11c50, 0x11d50, 0x11da0, 0x16a60, 0x16ac0,
    0x16b50, 0x1d7ce, 0x1d7d8, 0x1d7e2, 0x1d7ec, 0x1d7f6, 0x1e140, 0x1e2f0, 0x1e950, 0x1fbf0]

def decimal (c : Char) : Option ℕ :=
  (decimalZeros.find? fun z => decide (z ≤ c.toNat ∧ c.toNat < z + 10)).map (c.toNat - ·)

def isDecimal (c : Char) : Bool := (decimal c).isSome

/-- Python's `int`. -/
def decimalNumber (cs : List Char) : ℕ := cs.foldl (fun n c => 10 * n + (decimal c).getD 0) 0

/-- `\[(-?\d+)\]` -/
def bracketIndex : List Char → Option (ℤ × List Char)
  | '[' :: cs =>
    match (sign cs).2.takeWhile isDecimal, (sign cs).2.dropWhile isDecimal with
    | d :: ds, ']' :: rest => some (signed (sign cs).1 (decimalNumber (d :: ds)), rest)
    | _, _ => none
  | _ => none

/-- `re.findall`; every round reads at least one character. -/
def findAll (sep : String) : ℕ → List Char → List Step
  | 0, _ => []
  | _ + 1, [] => []
  | fuel + 1, c :: cs =>
    match bracketIndex (c :: cs) with
    | some (i, rest) => .index i :: findAll sep fuel rest
    | none =>
      if isKeyChar sep c then
        .key (String.ofList (c :: cs.takeWhile (isKeyChar sep))) ::
          findAll sep fuel (cs.dropWhile (isKeyChar sep))
      else findAll sep fuel cs

def parseKey (key sep : String) : List Step := findAll sep key.toList.length key.toList

def letter (c : Char) : Pattern Char := .one fun a => decide (a = c)

def optional (P : Pattern Char) : Pattern Char := .alt P .nil

def bracketPattern : Pattern Char :=
  .seq (letter '[') (.seq (optional (letter '-')) (.seq (.plus (.one isDecimal)) (letter ']')))

/-- `((\[-?\d+\])|([0-9a-zA-Z%s/_-]+)).?` -/
def itemPattern : Pattern Char :=
  .seq (.alt bracketPattern (.plus (.one isValidChar)))
    (optional (.one fun c => decide (c ≠ '\n')))

/-- The end of the expression also matches before a line feed that ends the key. -/
def reValidKey : Pattern Char := .seq (.plus itemPattern) (optional (letter '\n'))

def validKey (key : String) : Bool := reValidKey.test key.toList

/-! ## Writing a key -/

def renderIndex (i : ℤ) : List Char :=
  '[' :: ((if i < 0 then ['-'] else []) ++ Nat.toDigits 10 i.natAbs ++ [']'])

def renderStep : Step → List Char
  | .key k => k.toList
  | .index i => renderIndex i

def renderRest (sep : Char) : List Step → List Char
  | [] => []
  | .key k :: p => sep :: (k.toList ++ renderRest sep p)
  | .index i :: p => renderIndex i ++ renderRest sep p

/-- The key of a place: a separator before every key but the first step. -/
def renderKey (sep : Char) : List Step → List Char
  | [] => []
  | s :: p => renderStep s ++ renderRest sep p

/-- `[0-9a-zA-Z/_-]+`, which both expressions take for a key. -/
def plainKey (k : String) : Prop :=
  k.toList ≠ [] ∧ ∀ c ∈ k.toList, (c.isAlphanum || c = '/' || c = '_' || c = '-') = true

def PlainStep : Step → Prop
  | .key k => plainKey k
  | .index _ => True

variable {sep c : Char} {rest : List Char} {p : List Step} {s : Step} {k : String}

theorem plainKey_of_all (hne : k.toList ≠ [])
    (h : k.toList.all (fun c => c.isAlphanum || c = '/' || c = '_' || c = '-') = true) :
    plainKey k :=
  ⟨hne, List.all_eq_true.mp h⟩

theorem decimal_of_isDigit (h : c.isDigit = true) : decimal c = some (c.toNat - 48) := by
  have hrange : 48 ≤ c.toNat ∧ c.toNat < 58 := by
    rw [Char.isDigit, Bool.and_eq_true, decide_eq_true_iff, decide_eq_true_iff, ge_iff_le,
      UInt32.le_iff_toNat_le, UInt32.le_iff_toNat_le] at h
    exact ⟨h.1, Nat.lt_succ_of_le h.2⟩
  rw [decimal, decimalZeros, List.find?_cons_of_pos (by simpa using hrange), Option.map_some]

theorem isDecimal_of_isDigit (h : c.isDigit = true) : isDecimal c = true := by
  rw [isDecimal, decimal_of_isDigit h, Option.isSome_some]

theorem decimalNumber_digits {ds : List Char} (h : ∀ c ∈ ds, c.isDigit = true) :
    decimalNumber ds = Nat.ofDigitChars 10 ds 0 := by
  rw [decimalNumber, Nat.ofDigitChars]
  refine List.foldl_ext _ _ 0 fun n c hc => ?_
  rw [decimal_of_isDigit (h c hc), Option.getD_some]
  rfl

theorem sign_digits {ds : List Char} (h : ∀ c ∈ ds, c.isDigit = true) (hne : ds ≠ []) :
    sign (ds ++ rest) = (false, ds ++ rest) := by
  obtain ⟨d, ds, rfl⟩ := List.exists_cons_of_ne_nil hne
  have hd := h d List.mem_cons_self
  rw [List.cons_append, sign]
  rintro cs he
  obtain ⟨rfl, -⟩ := List.cons.inj he
  exact absurd hd (by decide)

theorem bracketIndex_render (i : ℤ) (rest : List Char) :
    bracketIndex (renderIndex i ++ rest) = some (i, rest) := by
  have hdigits : ∀ c ∈ Nat.toDigits 10 i.natAbs, c.isDigit = true := fun c hc =>
    Nat.isDigit_of_mem_toDigits (by decide) (by decide) hc
  have hne : Nat.toDigits 10 i.natAbs ≠ [] := Nat.toDigits_ne_nil
  have hvalue : decimalNumber (Nat.toDigits 10 i.natAbs) = i.natAbs :=
    (decimalNumber_digits hdigits).trans Nat.ofDigitChars_ten_toDigits
  have hdecimal : ∀ c ∈ Nat.toDigits 10 i.natAbs, isDecimal c = true := fun c hc =>
    isDecimal_of_isDigit (hdigits c hc)
  have htake : (Nat.toDigits 10 i.natAbs ++ ']' :: rest).takeWhile isDecimal =
      Nat.toDigits 10 i.natAbs := by
    rw [List.takeWhile_append_of_pos hdecimal, List.takeWhile_cons_of_neg (by decide),
      List.append_nil]
  have hdrop : (Nat.toDigits 10 i.natAbs ++ ']' :: rest).dropWhile isDecimal =
      ']' :: rest := by
    rw [List.dropWhile_append_of_pos hdecimal, List.dropWhile_cons_of_neg (by decide)]
  have hread : ∀ (cs : List Char) (negative : Bool),
      sign cs = (negative, Nat.toDigits 10 i.natAbs ++ ']' :: rest) →
      bracketIndex ('[' :: cs) = some (signed negative i.natAbs, rest) := by
    intro cs negative hsign
    rw [bracketIndex, hsign]
    obtain ⟨d, ds, he⟩ := List.exists_cons_of_ne_nil hne
    rw [he] at hvalue
    simp only [htake, hdrop]
    simp only [he, hvalue]
  rw [renderIndex]
  by_cases hi : i < 0
  · rw [if_pos hi]
    simp only [List.cons_append, List.nil_append, List.append_assoc]
    rw [hread _ true rfl, signed, if_pos rfl]
    have : -(i.natAbs : ℤ) = i := by omega
    rw [this]
  · rw [if_neg hi]
    simp only [List.cons_append, List.nil_append, List.append_assoc]
    rw [hread _ false (sign_digits hdigits hne), signed, if_neg (by decide)]
    have : (i.natAbs : ℤ) = i := by omega
    rw [this]

theorem bracketIndex_of_ne (hc : c ≠ '[') (cs : List Char) : bracketIndex (c :: cs) = none := by
  rw [bracketIndex]
  rintro cs' he
  exact hc (List.cons.inj he).1

theorem not_isKeyChar_bracket (sep : String) : isKeyChar sep '[' = false := by
  have hnone : (commonSeparators sep).any (fun s => decide (s = '[')) = false := by
    rw [List.any_eq_false]
    intro s hs
    have hmem := (List.mem_filter.mp hs).1
    simp only [comSep, List.mem_cons, List.not_mem_nil, or_false] at hmem
    rcases hmem with rfl | rfl | rfl | rfl <;> decide
  rw [isKeyChar, hnone]
  decide

/-- The separator ends a key. -/
structure Separator (sep : Char) : Prop where
  notKeyChar : isKeyChar (String.singleton sep) sep = false
  notBracket : sep ≠ '['
  notBreak : sep ≠ '\n'

theorem isKeyChar_of_plain {sep : String}
    (h : (c.isAlphanum || c = '/' || c = '_' || c = '-') = true) : isKeyChar sep c = true := by
  simp only [Bool.or_eq_true, decide_eq_true_eq] at h
  rw [isKeyChar]
  rcases h with ((h | h) | h) | h <;> simp [h]

theorem isValidChar_of_plain (h : (c.isAlphanum || c = '/' || c = '_' || c = '-') = true) :
    isValidChar c = true := by
  simp only [Bool.or_eq_true, decide_eq_true_eq] at h
  rw [isValidChar]
  rcases h with ((h | h) | h) | h <;> simp [h]

/-! ## The steps of a key -/

/-- The text begins with a character that no key has. -/
def Stops (sep : String) (cs : List Char) : Prop := ∀ c ∈ cs.head?, isKeyChar sep c = false

theorem stops_renderRest (hsep : Separator sep) (p : List Step) :
    Stops (String.singleton sep) (renderRest sep p) := by
  intro c hc
  cases p with
  | nil => cases hc
  | cons s p =>
    cases s with
    | key k =>
      obtain rfl := Option.some.inj hc
      exact hsep.notKeyChar
    | index i =>
      obtain rfl := Option.some.inj hc
      exact not_isKeyChar_bracket _

theorem takeWhile_stops {sep : String} {ks : List Char} (hks : ∀ c ∈ ks, isKeyChar sep c = true)
    (h : Stops sep rest) : (ks ++ rest).takeWhile (isKeyChar sep) = ks := by
  rw [List.takeWhile_append_of_pos hks]
  cases rest with
  | nil => simp
  | cons c cs => rw [List.takeWhile_cons_of_neg (by simp [h c rfl]), List.append_nil]

theorem dropWhile_stops {sep : String} {ks : List Char} (hks : ∀ c ∈ ks, isKeyChar sep c = true)
    (h : Stops sep rest) : (ks ++ rest).dropWhile (isKeyChar sep) = rest := by
  rw [List.dropWhile_append_of_pos hks]
  cases rest with
  | nil => rfl
  | cons c cs => rw [List.dropWhile_cons_of_neg (by simp [h c rfl])]

theorem findAll_key {sep : String} {fuel : ℕ} (hk : plainKey k) (h : Stops sep rest) :
    findAll sep (fuel + 1) (k.toList ++ rest) = .key k :: findAll sep fuel rest := by
  obtain ⟨hne, hchars⟩ := hk
  obtain ⟨c, ks, hks⟩ := List.exists_cons_of_ne_nil hne
  rw [hks] at hchars ⊢
  obtain ⟨hc, hrest⟩ := List.forall_mem_cons.mp hchars
  have hbracket : c ≠ '[' := by
    rintro rfl
    exact absurd hc (by decide)
  have hall : ∀ a ∈ ks, isKeyChar sep a = true := fun a ha => isKeyChar_of_plain (hrest a ha)
  rw [List.cons_append, findAll, bracketIndex_of_ne hbracket]
  simp only [isKeyChar_of_plain hc, if_true, takeWhile_stops hall h, dropWhile_stops hall h]
  rw [← hks, String.ofList_toList]

theorem length_renderIndex (i : ℤ) : 0 < (renderIndex i).length := by
  rw [renderIndex, List.length_cons]
  omega

theorem findAll_renderRest (hsep : Separator sep) {p : List Step} (hp : ∀ s ∈ p, PlainStep s)
    {fuel : ℕ} (hfuel : (renderRest sep p).length ≤ fuel) :
    findAll (String.singleton sep) fuel (renderRest sep p) = p := by
  induction p generalizing fuel with
  | nil => cases fuel <;> rfl
  | cons s p ih =>
    obtain ⟨hs, hrest⟩ := List.forall_mem_cons.mp hp
    cases s with
    | key k =>
      rw [renderRest, List.length_cons, List.length_append] at hfuel
      have hpos : 0 < k.toList.length := List.length_pos_of_ne_nil hs.1
      obtain ⟨fuel, rfl⟩ : ∃ f, fuel = f + 2 := ⟨fuel - 2, by omega⟩
      rw [renderRest, findAll, bracketIndex_of_ne hsep.notBracket]
      simp only [hsep.notKeyChar, Bool.false_eq_true, if_false]
      rw [findAll_key hs (stops_renderRest hsep p), ih hrest (by omega)]
    | index i =>
      have hpos := length_renderIndex i
      rw [renderRest, List.length_append] at hfuel
      obtain ⟨fuel, rfl⟩ : ∃ f, fuel = f + 1 := ⟨fuel - 1, by omega⟩
      have hread := bracketIndex_render i (renderRest sep p)
      rw [renderRest]
      rw [renderIndex, List.cons_append] at hread ⊢
      rw [findAll, hread]
      simp only
      rw [ih hrest (by omega)]

theorem parseKey_render (hsep : Separator sep) (hp : ∀ s ∈ p, PlainStep s) :
    parseKey (String.ofList (renderKey sep p)) (String.singleton sep) = p := by
  rw [parseKey, String.toList_ofList]
  cases p with
  | nil => rfl
  | cons s p =>
    obtain ⟨hs, hrest⟩ := List.forall_mem_cons.mp hp
    cases s with
    | key k =>
      have hpos : 0 < k.toList.length := List.length_pos_of_ne_nil hs.1
      obtain ⟨fuel, hfuel⟩ : ∃ f, (renderKey sep (.key k :: p)).length = f + 1 := by
        refine ⟨(renderKey sep (.key k :: p)).length - 1, ?_⟩
        rw [renderKey, renderStep, List.length_append]
        omega
      rw [hfuel, renderKey, renderStep, findAll_key hs (stops_renderRest hsep p),
        findAll_renderRest hsep hrest]
      rw [renderKey, renderStep, List.length_append] at hfuel
      omega
    | index i =>
      exact findAll_renderRest hsep hp (Nat.le_refl _)

/-! ## The validity of a key -/

theorem mem_letter (c : Char) : [c] ∈ (letter c).language := ⟨c, by simp, rfl⟩

theorem mem_optional {P : Pattern Char} {w : List Char} (h : w ∈ P.language) :
    w ∈ (optional P).language := Or.inl h

theorem nil_mem_optional (P : Pattern Char) : [] ∈ (optional P).language :=
  Or.inr (Language.nil_mem_one)

theorem renderIndex_mem (i : ℤ) : renderIndex i ∈ bracketPattern.language := by
  have hdigits : Nat.toDigits 10 i.natAbs ∈ (Pattern.plus (.one isDecimal)).language :=
    Pattern.mem_plus_one.mpr ⟨Nat.toDigits_ne_nil, fun c hc =>
      isDecimal_of_isDigit (Nat.isDigit_of_mem_toDigits (by decide) (by decide) hc)⟩
  have hsign : (if i < 0 then ['-'] else []) ∈ (optional (letter '-')).language := by
    split
    · exact mem_optional (mem_letter '-')
    · exact nil_mem_optional _
  refine Pattern.mem_seq.mpr ⟨['['], _, rfl, mem_letter '[', ?_⟩
  refine Pattern.mem_seq.mpr ⟨_, _, List.append_assoc _ _ _, hsign, ?_⟩
  exact Pattern.mem_seq.mpr ⟨_, _, rfl, hdigits, mem_letter ']'⟩

/-- A step with or without a character behind it. -/
theorem renderStep_mem (hs : PlainStep s) {cs : List Char} (hcs : cs = [] ∨ cs = [c])
    (hc : c ≠ '\n') : renderStep s ++ cs ∈ itemPattern.language := by
  have hstep : renderStep s ∈ (Pattern.alt bracketPattern (.plus (.one isValidChar))).language := by
    cases s with
    | key k =>
      exact Or.inr (Pattern.mem_plus_one.mpr
        ⟨hs.1, fun a ha => isValidChar_of_plain (hs.2 a ha)⟩)
    | index i => exact Or.inl (renderIndex_mem i)
  refine Pattern.mem_seq.mpr ⟨_, _, rfl, hstep, ?_⟩
  rcases hcs with rfl | rfl
  · exact nil_mem_optional _
  · exact mem_optional ⟨c, by simpa using hc, rfl⟩

theorem mem_plus_self {P : Pattern Char} {u : List Char} (hu : u ∈ P.language) :
    u ∈ (Pattern.plus P).language :=
  Pattern.mem_seq.mpr ⟨u, [], (List.append_nil u).symm, hu, Pattern.nil_mem_star⟩

theorem mem_plus_append {P : Pattern Char} {u v : List Char} (hu : u ∈ P.language)
    (hv : v ∈ (Pattern.plus P).language) : u ++ v ∈ (Pattern.plus P).language := by
  obtain ⟨x, y, rfl, hx, hy⟩ := Pattern.mem_seq.mp hv
  obtain ⟨ws, rfl, hws⟩ := Pattern.mem_star.mp hy
  refine Pattern.mem_seq.mpr ⟨u, x ++ ws.flatten, rfl, hu, ?_⟩
  by_cases hnil : x = []
  · rw [hnil, List.nil_append]
    exact hy
  · exact Pattern.mem_star.mpr ⟨x :: ws, rfl, List.forall_mem_cons.mpr ⟨⟨hx, hnil⟩, hws⟩⟩

theorem renderKey_mem (hsep : Separator sep) (hp : ∀ s ∈ p, PlainStep s) (hne : p ≠ []) :
    renderKey sep p ∈ (Pattern.plus itemPattern).language := by
  induction p with
  | nil => exact absurd rfl hne
  | cons s p ih =>
    obtain ⟨hs, hrest⟩ := List.forall_mem_cons.mp hp
    cases p with
    | nil => exact mem_plus_self (renderStep_mem hs (Or.inl rfl) hsep.notBreak)
    | cons t p =>
      have htail := ih hrest (List.cons_ne_nil t p)
      cases t with
      | key k =>
        have hstep := renderStep_mem hs (Or.inr rfl) hsep.notBreak
        have hboth := mem_plus_append hstep htail
        rwa [List.append_assoc] at hboth
      | index i =>
        have hstep := renderStep_mem hs (Or.inl rfl) hsep.notBreak
        have hboth := mem_plus_append hstep htail
        rwa [List.append_nil] at hboth

theorem validKey_render (hsep : Separator sep) (hp : ∀ s ∈ p, PlainStep s) (hne : p ≠ []) :
    validKey (String.ofList (renderKey sep p)) = true := by
  rw [validKey, String.toList_ofList, Pattern.test_iff]
  exact Pattern.mem_seq.mpr ⟨_, [], (List.append_nil _).symm, renderKey_mem hsep hp hne,
    nil_mem_optional _⟩

/-- Every place with plain keys has a valid key, from which exactly its steps are read. -/
theorem key_of_place (hsep : Separator sep) (hp : ∀ s ∈ p, PlainStep s) (hne : p ≠ []) :
    validKey (String.ofList (renderKey sep p)) = true ∧
      parseKey (String.ofList (renderKey sep p)) (String.singleton sep) = p :=
  ⟨validKey_render hsep hp hne, parseKey_render hsep hp⟩

theorem separator_dot : Separator '.' := ⟨by decide, by decide, by decide⟩

theorem key_of_nested_place :
    validKey (String.ofList (renderKey '.' [.key "a", .index (-1), .key "b"])) = true ∧
      parseKey (String.ofList (renderKey '.' [.key "a", .index (-1), .key "b"]))
        (String.singleton '.') = [.key "a", .index (-1), .key "b"] := by
  refine key_of_place separator_dot ?_ (List.cons_ne_nil _ _)
  simp only [List.forall_mem_cons]
  exact ⟨plainKey_of_all (by decide) (by decide), trivial,
    plainKey_of_all (by decide) (by decide), List.forall_mem_nil _⟩

end YeditKeys
