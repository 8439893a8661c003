import Autobase.JsonText

/-! # Double-quoted scalars

A scalar between double quotes in one line of a file, in which other characters than the line
feed may still break a line of YAML. Every escape is longer than the character it stands for, and
a folded break loses something unless it is one of the two separators, so a scalar is read as the
text between its quotes only when it is made of plain characters and separators. -/
namespace QuotedScalars

open JsonText (hexDigit?)

/-- The line breaks of YAML. -/
def isBreak (c : Char) : Bool := c.toNat ∈ [0x0a, 0x0d, 0x85, 0x2028, 0x2029]

/-- What the reader of the text lets pass. -/
def isPrintable (c : Char) : Bool :=
  c = '\t' || decide (0x20 ≤ c.toNat ∧ c.toNat ≤ 0x7e) ||
    decide (0xa0 ≤ c.toNat ∧ c.toNat ≤ 0xfffd) || decide (0x10000 ≤ c.toNat)

/-- A character of a scalar that stands for itself. -/
def isPlain (c : Char) : Bool := c ≠ '"' && c ≠ '\\' && (isPrintable c && !isBreak c)

/-! ## Line breaks -/

/-- The breaks that are not unified. -/
def isSeparator (c : Char) : Bool := c.toNat = 0x2028 || c.toNat = 0x2029

def isGap (c : Char) : Bool := c = ' ' || c = '\t'

def startsWith (p : Char → Bool) : List Char → Bool
  | [] => false
  | c :: _ => p c

def isMarker (m : List Char) : Bool := m = ['-', '-', '-'] || m = ['.', '.', '.']

/-- A line that begins with a marker of documents. -/
def opensDocument (cs : List Char) : Bool :=
  isMarker (cs.take 3) && startsWith (fun d => isGap d || isBreak d) (cs.drop 3)

def leadsToBreak (cs : List Char) : Bool := startsWith isBreak (cs.dropWhile isGap)

/-- Within the text of a line, behind a break for which a blank is due unless another break
follows, or behind one that has been written. -/
inductive Place where
  | text | due | folded
  deriving DecidableEq

def Place.space : Place → List Char
  | .due => [' ']
  | _ => []

/-- What a break adds to the scalar, and the place behind it. -/
def Place.broken : Place → Char → List Char × Place
  | .text, c => if isSeparator c then ([c], .folded) else ([], .due)
  | _, c => ([if isSeparator c then c else '\n'], .folded)

/-! ## Reading -/

def readHex : ℕ → ℕ → List Char → Option (ℕ × List Char)
  | 0, code, cs => some (code, cs)
  | _ + 1, _, [] => none
  | n + 1, code, c :: cs => (hexDigit? c).bind fun d => readHex n (16 * code + d) cs

def codePoint (p : ℕ × List Char) : Option (Char × List Char) :=
  if p.1.isValidChar then some (Char.ofNat p.1, p.2) else none

def shortEscape : Char → Option Char
  | '0' => some (Char.ofNat 0)
  | 'a' => some (Char.ofNat 7)
  | 'b' => some (Char.ofNat 8)
  | 't' => some '\t'
  | '\t' => some '\t'
  | 'n' => some '\n'
  | 'v' => some (Char.ofNat 11)
  | 'f' => some (Char.ofNat 12)
  | 'r' => some '\r'
  | 'e' => some (Char.ofNat 27)
  | ' ' => some ' '
  | '"' => some '"'
  | '\\' => some '\\'
  | '/' => some '/'
  | 'N' => some (Char.ofNat 0x85)
  | '_' => some (Char.ofNat 0xa0)
  | 'L' => some (Char.ofNat 0x2028)
  | 'P' => some (Char.ofNat 0x2029)
  | _ => none

def readEscape : List Char → Option (Char × List Char)
  | [] => none
  | 'x' :: cs => (readHex 2 0 cs).bind codePoint
  | 'u' :: cs => (readHex 4 0 cs).bind codePoint
  | 'U' :: cs => (readHex 8 0 cs).bind codePoint
  | c :: cs => (shortEscape c).map fun u => (u, cs)

structure Escaped where
  added : List Char
  place : Place
  rest : List Char

/-- What follows a backslash; at the end of a line it joins the line to the next one. -/
def readBackslash (cs : List Char) : Option Escaped :=
  if startsWith isBreak cs then
    if opensDocument (cs.drop 1) then none else some ⟨[], .folded, cs.drop 1⟩
  else (readEscape cs).map fun p => ⟨[p.1], .text, p.2⟩

/-- The scalar behind its opening quote, and what stands behind the closing one. Blanks around a
break are left out. A scalar that goes on in the next line of the file is none. -/
def readQuoted : ℕ → Place → List Char → Option (List Char × List Char)
  | 0, _, _ => none
  | _ + 1, _, [] => none
  | n + 1, s, c :: cs =>
    if isBreak c then
      if opensDocument cs then none
      else (readQuoted n (s.broken c).2 cs).map fun q => ((s.broken c).1 ++ q.1, q.2)
    else if isGap c && (s ≠ .text || leadsToBreak cs) then readQuoted n s cs
    else if c = '"' then some (s.space, cs)
    else if c = '\\' then
      (readBackslash cs).bind fun p =>
        (readQuoted n p.place p.rest).map fun q => (s.space ++ (p.added ++ q.1), q.2)
    else if isPrintable c then
      (readQuoted n .text cs).map fun q => (s.space ++ c :: q.1, q.2)
    else none

/-- The texts that are read as themselves: with no blank beside a separator, and no marker of
documents behind one. -/
def isKept : List Char → Bool
  | [] => true
  | c :: cs =>
    (isPlain c && !(isGap c && leadsToBreak cs) ||
      isSeparator c && !startsWith isGap cs && !opensDocument cs) && isKept cs

/-! ## What is read as itself -/

variable {n code : ℕ} {c : Char} {cs t r : List Char}

theorem readHex_used (h : readHex n code cs = some (m, r)) :
    ∃ used, cs = used ++ r ∧ used.length = n := by
  induction n generalizing code cs with
  | zero =>
    simp only [readHex, Option.some.injEq, Prod.mk.injEq] at h
    exact ⟨[], h.2, rfl⟩
  | succ n ih =>
    cases cs with
    | nil => cases h
    | cons c cs =>
      obtain ⟨d, -, hrest⟩ := Option.bind_eq_some_iff.mp h
      obtain ⟨used, rfl, hlength⟩ := ih hrest
      exact ⟨c :: used, rfl, congrArg (· + 1) hlength⟩

theorem codePoint_rest {p : ℕ × List Char} (h : codePoint p = some (c, r)) : p.2 = r := by
  rw [codePoint] at h
  split at h
  · exact congrArg Prod.snd (Option.some.inj h)
  · cases h

theorem readEscape_used (h : readEscape cs = some (c, r)) :
    ∃ used, cs = used ++ r ∧ used ≠ [] := by
  have hhex : ∀ (n : ℕ) (d : Char) (ds : List Char),
      (readHex n 0 ds).bind codePoint = some (c, r) → ∃ used, d :: ds = used ++ r ∧ used ≠ [] := by
    intro n d ds hcode
    obtain ⟨p, hp, hrest⟩ := Option.bind_eq_some_iff.mp hcode
    obtain ⟨used, rfl, -⟩ := readHex_used hp
    exact ⟨d :: used, by rw [codePoint_rest hrest, List.cons_append], List.cons_ne_nil _ _⟩
  unfold readEscape at h
  split at h
  · cases h
  · exact hhex 2 _ _ h
  · exact hhex 4 _ _ h
  · exact hhex 8 _ _ h
  · rename_i d ds _ _ _
    obtain ⟨u, -, hu⟩ := Option.map_eq_some_iff.mp h
    obtain ⟨rfl, rfl⟩ := Prod.mk.inj hu
    exact ⟨[d], rfl, List.cons_ne_nil _ _⟩

theorem readBackslash_used {e : Escaped} (h : readBackslash cs = some e) :
    e.place ≠ .due ∧ ∃ used, cs = used ++ e.rest ∧ e.added.length ≤ used.length := by
  rw [readBackslash] at h
  split at h
  · rename_i hbreak
    split at h
    · cases h
    · obtain rfl := Option.some.inj h
      cases cs with
      | nil => cases hbreak
      | cons d cs => exact ⟨Place.noConfusion, [d], rfl, Nat.zero_le _⟩
  · obtain ⟨p, hp, rfl⟩ := Option.map_eq_some_iff.mp h
    obtain ⟨used, hused, hne⟩ := readEscape_used hp
    exact ⟨Place.noConfusion, used, hused, List.length_pos_of_ne_nil hne⟩

/-! ### What stands in front of the closing quote -/

theorem startsWith_append {p : Char → Bool} (hp : p '"' = false) (cs r : List Char) :
    startsWith p (cs ++ '"' :: r) = startsWith p cs := by
  cases cs with
  | nil => exact hp
  | cons c cs => rfl

theorem isMarker_spec {m : List Char} (h : isMarker m = true) : m.length = 3 ∧ '"' ∉ m := by
  rw [isMarker, Bool.or_eq_true, decide_eq_true_eq, decide_eq_true_eq] at h
  rcases h with rfl | rfl
  · exact ⟨rfl, by decide⟩
  · exact ⟨rfl, by decide⟩

theorem opensDocument_append (cs r : List Char) :
    opensDocument (cs ++ '"' :: r) = opensDocument cs := by
  by_cases hlength : 3 ≤ cs.length
  · rw [opensDocument, List.take_append_of_le_length hlength,
      List.drop_append_of_le_length hlength, startsWith_append (by decide)]
    rfl
  · have hquote : '"' ∈ (cs ++ '"' :: r).take 3 := by
      obtain ⟨m, hm⟩ := Nat.exists_eq_add_of_lt (Nat.lt_of_not_le hlength)
      rw [hm, Nat.add_assoc, List.take_length_add_append, List.take_succ_cons]
      exact List.mem_append_right _ List.mem_cons_self
    have hlong : isMarker ((cs ++ '"' :: r).take 3) = false :=
      Bool.eq_false_iff.mpr fun hm => (isMarker_spec hm).2 hquote
    have hshort : isMarker (cs.take 3) = false := by
      apply Bool.eq_false_iff.mpr
      intro hm
      have htake := (isMarker_spec hm).1
      rw [List.length_take] at htake
      omega
    rw [opensDocument, opensDocument, hlong, hshort]
    rfl

theorem leadsToBreak_append (cs r : List Char) :
    leadsToBreak (cs ++ '"' :: r) = leadsToBreak cs := by
  induction cs with
  | nil => rfl
  | cons c cs ih =>
    by_cases hc : isGap c = true
    · simpa [leadsToBreak, hc] using ih
    · simp [leadsToBreak, hc, startsWith]

/-! ### What was read, and from what -/

/-- A text that was read from another one is not longer, but for the blank that is due, and is
the same only when that one is kept. -/
structure ReadFrom (s : Place) (t used : List Char) : Prop where
  length : t.length ≤ used.length + s.space.length
  due : s = .due → t.length ≤ used.length ∨ t.head? = some ' '
  same : s ≠ .due → t = used → isKept used = true ∧ (s = .folded → startsWith isGap used = false)

variable {s : Place} {used : List Char}

theorem space_eq_nil (hs : s ≠ .due) : s.space = [] := by
  cases s with
  | due => exact absurd rfl hs
  | text => rfl
  | folded => rfl

theorem isGap_of_isBreak (h : isBreak c = true) : isGap c = false := by
  rw [isGap, Bool.or_eq_false_iff]
  constructor
  · apply decide_eq_false
    rintro rfl
    exact absurd h (by decide)
  · apply decide_eq_false
    rintro rfl
    exact absurd h (by decide)

namespace ReadFrom

theorem length_le (h : ReadFrom s t used) (hs : s ≠ .due) : t.length ≤ used.length := by
  have hlength := h.length
  rwa [space_eq_nil hs] at hlength

theorem close (s : Place) : ReadFrom s s.space [] where
  length := Nat.le_add_left _ _
  due := by
    rintro rfl
    exact Or.inr rfl
  same := fun _ _ => ⟨rfl, fun _ => rfl⟩

theorem gap (h : ReadFrom s t used) (c : Char) : ReadFrom s t (c :: used) where
  length := by
    have hlength := h.length
    rw [List.length_cons]
    omega
  due := fun hs => (h.due hs).imp_left fun hle => Nat.le_succ_of_le hle
  same := by
    intro hs heq
    have hle := h.length_le hs
    rw [heq, List.length_cons] at hle
    omega

/-- The text is written in more characters than it has. -/
theorem longer {s' : Place} (h : ReadFrom s' t used) (hs : s' ≠ .due) (e k : List Char)
    (hlonger : e.length < k.length) : ReadFrom s (s.space ++ (e ++ t)) (k ++ used) where
  length := by
    have hle := h.length_le hs
    simp only [List.length_append]
    omega
  due := by
    rintro rfl
    exact Or.inr rfl
  same := by
    intro hdue heq
    have hle := h.length_le hs
    rw [space_eq_nil hdue, List.nil_append] at heq
    have hlength := congrArg List.length heq
    simp only [List.length_append] at hlength
    omega

theorem plain (h : ReadFrom .text t used) (hplain : isPlain c = true)
    (hgap : (isGap c && (s ≠ .text || leadsToBreak used)) = false) :
    ReadFrom s (s.space ++ c :: t) (c :: used) where
  length := by
    have hle := h.length_le (by decide)
    simp only [List.length_append, List.length_cons]
    omega
  due := by
    rintro rfl
    exact Or.inr rfl
  same := by
    intro hdue heq
    rw [space_eq_nil hdue, List.nil_append] at heq
    obtain ⟨-, rfl⟩ := List.cons.inj heq
    obtain ⟨hkept, -⟩ := h.same (by decide) rfl
    constructor
    · cases hc : isGap c with
      | false => simp [isKept, hplain, hc, hkept]
      | true =>
        rw [hc, Bool.true_and, Bool.or_eq_false_iff] at hgap
        simp [isKept, hplain, hgap.2, hkept]
    · rintro rfl
      rw [startsWith]
      simpa using hgap

theorem separator (h : ReadFrom .folded t used) (hseparator : isSeparator c = true)
    (hbreak : isBreak c = true) (hopens : opensDocument used = false) :
    ReadFrom s (c :: t) (c :: used) where
  length := by
    have hle := h.length_le (by decide)
    simp only [List.length_cons]
    omega
  due := fun _ => Or.inl (Nat.succ_le_succ (h.length_le (by decide)))
  same := by
    intro _ heq
    obtain ⟨-, rfl⟩ := List.cons.inj heq
    obtain ⟨hkept, hgap⟩ := h.same (by decide) rfl
    refine ⟨?_, fun _ => isGap_of_isBreak hbreak⟩
    simp [isKept, hseparator, hgap rfl, hopens, hkept]

/-- A break that is unified is not the one that was read. -/
theorem unified (h : ReadFrom .folded t used) (hfeed : c ≠ '\n') :
    ReadFrom s ('\n' :: t) (c :: used) where
  length := by
    have hle := h.length_le (by decide)
    simp only [List.length_cons]
    omega
  due := fun _ => Or.inl (Nat.succ_le_succ (h.length_le (by decide)))
  same := fun _ heq => absurd (List.cons.inj heq).1.symm hfeed

theorem folded (h : ReadFrom .due t used) (hbreak : isBreak c = true) :
    ReadFrom .text t (c :: used) where
  length := h.length
  due := fun hdue => absurd hdue (by decide)
  same := by
    intro _ heq
    rcases h.due rfl with hle | hhead
    · rw [heq, List.length_cons] at hle
      omega
    · rw [heq, List.head?_cons, Option.some.injEq] at hhead
      rw [hhead] at hbreak
      exact absurd hbreak (by decide)

theorem broken (h : ReadFrom (s.broken c).2 t used) (hbreak : isBreak c = true)
    (hfeed : c ≠ '\n') (hopens : opensDocument used = false) :
    ReadFrom s ((s.broken c).1 ++ t) (c :: used) := by
  by_cases hseparator : isSeparator c = true
  · have hs : s.broken c = ([c], .folded) := by
      cases s <;> simp [Place.broken, hseparator]
    rw [hs] at h ⊢
    exact h.separator hseparator hbreak hopens
  · cases s with
    | text =>
      have hs : Place.text.broken c = ([], .due) := by simp [Place.broken, hseparator]
      rw [hs] at h ⊢
      exact h.folded hbreak
    | due =>
      have hs : Place.due.broken c = (['\n'], .folded) := by simp [Place.broken, hseparator]
      rw [hs] at h ⊢
      exact h.unified hfeed
    | folded =>
      have hs : Place.folded.broken c = (['\n'], .folded) := by simp [Place.broken, hseparator]
      rw [hs] at h ⊢
      exact h.unified hfeed

end ReadFrom

theorem readFrom_of_readQuoted (hfeed : '\n' ∉ cs) (h : readQuoted n s cs = some (t, r)) :
    ∃ used, cs = used ++ '"' :: r ∧ ReadFrom s t used := by
  induction n generalizing s cs t with
  | zero => cases h
  | succ n ih =>
    cases cs with
    | nil => cases h
    | cons c cs =>
      obtain ⟨hc, hcs⟩ := not_or.mp (mt List.mem_cons.mpr hfeed)
      rw [readQuoted] at h
      split at h
      · rename_i hbreak
        split at h
        · cases h
        · rename_i hopens
          obtain ⟨q, hq, heq⟩ := Option.map_eq_some_iff.mp h
          obtain ⟨rfl, rfl⟩ := Prod.mk.inj heq
          obtain ⟨used, rfl, hread⟩ := ih hcs hq
          rw [opensDocument_append] at hopens
          exact ⟨c :: used, rfl, hread.broken hbreak (Ne.symm hc) (by simpa using hopens)⟩
      · split at h
        · obtain ⟨used, rfl, hread⟩ := ih hcs h
          exact ⟨c :: used, rfl, hread.gap c⟩
        · rename_i hbreak hgap
          split at h
          · rename_i hquote
            obtain ⟨rfl, rfl⟩ := Prod.mk.inj (Option.some.inj h)
            exact ⟨[], by rw [hquote, List.nil_append], ReadFrom.close s⟩
          · rename_i hquote
            split at h
            · obtain ⟨e, he, hmap⟩ := Option.bind_eq_some_iff.mp h
              obtain ⟨q, hq, heq⟩ := Option.map_eq_some_iff.mp hmap
              obtain ⟨rfl, rfl⟩ := Prod.mk.inj heq
              obtain ⟨hplace, escape, rfl, hle⟩ := readBackslash_used he
              obtain ⟨used, hused, hread⟩ :=
                ih (fun hmem => hcs (List.mem_append_right escape hmem)) hq
              refine ⟨(c :: escape) ++ used, ?_,
                hread.longer hplace e.added (c :: escape) (Nat.lt_succ_of_le hle)⟩
              rw [hused, List.cons_append, List.cons_append, List.append_assoc]
            · rename_i hescape
              split at h
              · rename_i hprintable
                obtain ⟨q, hq, heq⟩ := Option.map_eq_some_iff.mp h
                obtain ⟨rfl, rfl⟩ := Prod.mk.inj heq
                obtain ⟨used, rfl, hread⟩ := ih hcs hq
                rw [leadsToBreak_append] at hgap
                have hplain : isPlain c = true := by
                  simp [isPlain, hquote, hescape, hprintable, hbreak]
                exact ⟨c :: used, rfl, hread.plain hplain (by simpa using hgap)⟩
              · cases h

theorem readQuoted_shorter (hfeed : '\n' ∉ cs) (h : readQuoted n .text cs = some (t, r)) :
    t.length < cs.length := by
  obtain ⟨used, rfl, hread⟩ := readFrom_of_readQuoted hfeed h
  have hle := hread.length_le (by decide)
  simp only [List.length_append, List.length_cons]
  omega

/-! ### Kept texts -/

theorem plain_or_separator (h : isKept t = true) (hc : c ∈ t) :
    isPlain c = true ∨ isSeparator c = true := by
  induction t with
  | nil => cases hc
  | cons d t ih =>
    rw [isKept, Bool.and_eq_true, Bool.or_eq_true, Bool.and_eq_true, Bool.and_eq_true,
      Bool.and_eq_true] at h
    rcases List.mem_cons.mp hc with rfl | hc
    · exact h.1.imp And.left fun hseparator => hseparator.1.1
    · exact ih h.2 hc

theorem feed_notMem_of_isKept (h : isKept t = true) : '\n' ∉ t := by
  intro hmem
  rcases plain_or_separator h hmem with hplain | hseparator
  · exact absurd hplain (by decide)
  · exact absurd hseparator (by decide)

theorem readQuoted_kept (h : isKept t = true) (hs : s ≠ .due)
    (hgap : s = .folded → startsWith isGap t = false) (hn : t.length < n) (r : List Char) :
    readQuoted n s (t ++ '"' :: r) = some (t, r) := by
  induction t generalizing n s with
  | nil =>
    obtain ⟨n, rfl⟩ := Nat.exists_eq_succ_of_ne_zero (Nat.ne_of_gt hn)
    have hquote : isBreak '"' = false ∧ isGap '"' = false := by decide
    rw [List.nil_append, readQuoted, if_neg (by simp [hquote.1]), if_neg (by simp [hquote.2]),
      if_pos rfl, space_eq_nil hs]
  | cons c t ih =>
    obtain ⟨n, rfl⟩ := Nat.exists_eq_succ_of_ne_zero (Nat.ne_of_gt (Nat.zero_lt_of_lt hn))
    have hlt := Nat.lt_of_succ_lt_succ hn
    rw [isKept, Bool.and_eq_true, Bool.or_eq_true] at h
    obtain ⟨hplain | hseparator, ht⟩ := h
    · simp only [isPlain, Bool.and_eq_true, Bool.not_eq_true', decide_eq_true_eq] at hplain
      obtain ⟨⟨⟨hquote, hescape⟩, hprintable, hbreak⟩, hleads⟩ := hplain
      have hguard : (isGap c && (s ≠ .text || leadsToBreak (t ++ '"' :: r))) = false := by
        rw [leadsToBreak_append]
        cases hc : isGap c with
        | false => rfl
        | true =>
          have hfolded : s ≠ .folded := fun hs => by simpa [startsWith, hc] using hgap hs
          have htext : s = .text := by
            cases s with
            | text => rfl
            | due => exact absurd rfl hs
            | folded => exact absurd rfl hfolded
          simpa [hc, htext] using hleads
      have hrest := ih ht (s := .text) (by decide) (fun hs => absurd hs (by decide)) hlt
      rw [List.cons_append, readQuoted, if_neg (by simp [hbreak]),
        if_neg (Bool.eq_false_iff.mp hguard), if_neg hquote, if_neg hescape, if_pos hprintable,
        hrest, space_eq_nil hs]
      rfl
    · simp only [Bool.and_eq_true, Bool.not_eq_true'] at hseparator
      obtain ⟨⟨hseparator, hstart⟩, hopens⟩ := hseparator
      have hbreak : isBreak c = true := by
        simp only [isSeparator, Bool.or_eq_true, decide_eq_true_eq] at hseparator
        rcases hseparator with h | h <;> simp [isBreak, h]
      have hbroken : s.broken c = ([c], .folded) := by
        cases s <;> simp [Place.broken, hseparator]
      have hrest := ih ht (s := .folded) (by decide) (fun _ => hstart) hlt
      rw [List.cons_append, readQuoted, if_pos hbreak, opensDocument_append,
        if_neg (by simp [hopens]), hbroken, hrest]
      rfl

/-- A text in one line is read as itself between quotes exactly when it is kept. -/
theorem readQuoted_iff (t : List Char) (hfeed : '\n' ∉ t) :
    (∃ n r, readQuoted n .text (t ++ ['"']) = some (t, r)) ↔ isKept t = true := by
  constructor
  · rintro ⟨n, r, h⟩
    have hcs : '\n' ∉ t ++ ['"'] := by simpa using hfeed
    obtain ⟨used, hused, hread⟩ := readFrom_of_readQuoted hcs h
    have hlength := congrArg List.length hused
    have hle := hread.length_le (by decide)
    simp only [List.length_append, List.length_cons, List.length_nil] at hlength
    have hsame : t = used := (List.append_inj hused (by omega)).1
    rw [hsame]
    exact (hread.same (by decide) hsame).1
  · intro h
    exact ⟨_, [], readQuoted_kept h (by decide) (fun hs => absurd hs (by decide))
      (Nat.lt_succ_self _) []⟩

end QuotedScalars
