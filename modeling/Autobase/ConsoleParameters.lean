import Autobase.ClassPatterns
import Mathlib.Data.List.TakeWhile

/-! # Parameter texts of the cluster form

A text of parameters is validated by a pattern over whole lines and taken apart by two splits.
Strings are sequences of 16-bit code units. -/
namespace ConsoleParameters

open ClassPatterns

abbrev JsString := List UInt16

def js (s : String) : JsString := s.toList.map fun c => UInt16.ofNat c.toNat

/-! ## The validator -/

def isBreak (c : UInt16) : Bool := c == 10 || c == 13

def isSeparator (c : UInt16) : Bool := c == 58 || c == 61

/-- `[^:=\n\r]` -/
def plain (c : UInt16) : Bool := !(isSeparator c || isBreak c)

def field : Pattern UInt16 := .plus (.one plain)

def line (separator : UInt16) : Pattern UInt16 :=
  .seq field (.seq (.one fun c => c == separator) field)

def configPattern (separator : UInt16) : Pattern UInt16 := .sepBy (line separator) isBreak

/-- Every line has a colon, or every line has an equals sign, or there is nothing at all. -/
def configValidationSchema (value : JsString) : Bool :=
  (configPattern 58).test value || (configPattern 61).test value || value.isEmpty

/-! ## The parser -/

/-- White space and line terminators. -/
def isSpace (c : UInt16) : Bool :=
  [9, 10, 11, 12, 13, 32, 160, 5760, 8192, 8193, 8194, 8195, 8196, 8197, 8198, 8199, 8200, 8201,
    8202, 8232, 8233, 8239, 8287, 12288, 65279].contains c

def trim (s : JsString) : JsString := ((s.dropWhile isSpace).reverse.dropWhile isSpace).reverse

structure Parameter where
  option : JsString
  value : JsString
  deriving DecidableEq

/-- A text that is empty or missing is handed back. -/
inductive Converted where
  | text (value : Option JsString)
  | parameters (ps : List Parameter)
  deriving DecidableEq

/-- A line without a separator has no second part to trim. -/
def convertLine (item : JsString) : Option Parameter :=
  match item.splitOnP isSeparator with
  | option :: value :: _ => some ⟨trim option, trim value⟩
  | _ => none

def convertModalParametersToArray : Option JsString → Option Converted
  | none => some (.text none)
  | some value =>
    if value.length = 0 then some (.text (some value))
    else ((value.splitOnP isBreak).mapM convertLine).map .parameters

/-! ## What the texts mean -/

def nonEmptyLines (value : JsString) : List JsString :=
  (value.splitOnP isBreak).filter fun l => !l.isEmpty

/-- `t` is `s` without the blanks at its two ends. -/
structure Trimmed (s t : JsString) : Prop where
  blanks : ∃ before after, s = before ++ t ++ after ∧ (∀ c ∈ before, isSpace c = true) ∧
    ∀ c ∈ after, isSpace c = true
  first : ∀ c ∈ t.head?, isSpace c = false
  last : ∀ c ∈ t.getLast?, isSpace c = false

/-- The option stands before the separator of the line and the value after it. -/
def Holds (l : JsString) (p : Parameter) : Prop :=
  ∃ k c v, l = k ++ c :: v ∧ (∀ a ∈ k, isSeparator a = false) ∧ isSeparator c = true ∧
    (∀ a ∈ v, isSeparator a = false) ∧ Trimmed k p.option ∧ Trimmed v p.value

/-- One separator a line, and one parameter a line, which the line holds and no other. -/
structure Understood (value : JsString) : Prop where
  separated : ∀ l ∈ nonEmptyLines value, l.countP isSeparator = 1
  empty : value = [] → convertModalParametersToArray (some value) = some (.text (some []))
  converted : value ≠ [] → ∃ ps, convertModalParametersToArray (some value) =
    some (.parameters ps) ∧ ∀ qs, List.Forall₂ Holds (nonEmptyLines value) qs ↔ qs = ps

/-! ## Blanks -/

variable {k v l s t : JsString} {c : UInt16} {p q : Parameter}

theorem trimmed_trim (s : JsString) : Trimmed s (trim s) := by
  have hstart := List.takeWhile_append_dropWhile (p := isSpace) (l := s)
  have hend := List.takeWhile_append_dropWhile (p := isSpace) (l := (s.dropWhile isSpace).reverse)
  have hlast : ∀ {x : JsString}, ∀ c ∈ (x.dropWhile isSpace).head?, isSpace c = false := by
    intro x c hc
    have hfirst := List.head?_dropWhile_not isSpace x
    rw [Option.mem_def.mp hc] at hfirst
    simpa using hfirst
  constructor
  · refine ⟨s.takeWhile isSpace, ((s.dropWhile isSpace).reverse.takeWhile isSpace).reverse, ?_,
      fun c hc => List.mem_takeWhile_imp hc,
      fun c hc => List.mem_takeWhile_imp (List.mem_reverse.mp hc)⟩
    rw [List.append_assoc, trim, ← List.reverse_append, hend, List.reverse_reverse, hstart]
  · intro c hc
    have hstarts : trim s <+: s.dropWhile isSpace := by
      have hsuffix := List.dropWhile_suffix isSpace (l := (s.dropWhile isSpace).reverse)
      rw [trim]
      simpa using List.reverse_prefix.mpr hsuffix
    obtain ⟨rest, hrest⟩ := hstarts
    refine hlast (x := s) c ?_
    rw [← hrest, Option.mem_def, List.head?_append, Option.mem_def.mp hc]
    rfl
  · intro c hc
    rw [trim, List.getLast?_reverse] at hc
    exact hlast c hc

theorem dropWhile_blanks {blanks : JsString} (hblanks : ∀ c ∈ blanks, isSpace c = true)
    (ht : ∀ c ∈ t.head?, isSpace c = false) : (blanks ++ t).dropWhile isSpace = t := by
  rw [List.dropWhile_append_of_pos hblanks]
  cases t with
  | nil => rfl
  | cons c t => rw [List.dropWhile_cons, if_neg (by simp [ht c rfl])]

theorem trimmed_iff : Trimmed s t ↔ t = trim s := by
  constructor
  · rintro ⟨⟨before, after, rfl, hbefore, hafter⟩, hfirst, hlast⟩
    cases t with
    | nil =>
      have hall : ∀ c ∈ before ++ [] ++ after, isSpace c = true := by
        intro c hc
        rw [List.append_nil] at hc
        exact (List.mem_append.mp hc).elim (hbefore c) (hafter c)
      rw [trim, List.dropWhile_eq_nil_iff.mpr hall]
      rfl
    | cons c t =>
      have hreverse : ∀ a ∈ (c :: t).reverse.head?, isSpace a = false := by
        rw [List.head?_reverse]
        exact hlast
      rw [trim, List.append_assoc, dropWhile_blanks hbefore (by simpa using hfirst c rfl),
        List.reverse_append, dropWhile_blanks (by simpa using hafter) hreverse,
        List.reverse_reverse]
  · rintro rfl
    exact trimmed_trim s

/-! ## One line -/

/-- The text before the first separator and the text after it. -/
def parameterOf (l : JsString) : Parameter :=
  ⟨trim (l.takeWhile fun c => !isSeparator c), trim ((l.dropWhile fun c => !isSeparator c).tail)⟩

theorem takeWhile_line (hk : ∀ a ∈ k, isSeparator a = false) (hc : isSeparator c = true) :
    (k ++ c :: v).takeWhile (fun a => !isSeparator a) = k := by
  rw [List.takeWhile_append_of_pos fun a ha => by rw [hk a ha]; rfl, List.takeWhile_cons, hc]
  exact List.append_nil k

theorem dropWhile_line (hk : ∀ a ∈ k, isSeparator a = false) (hc : isSeparator c = true) :
    (k ++ c :: v).dropWhile (fun a => !isSeparator a) = c :: v := by
  rw [List.dropWhile_append_of_pos fun a ha => by rw [hk a ha]; rfl, List.dropWhile_cons, hc]
  rfl

theorem holds_parameterOf (hk : ∀ a ∈ k, isSeparator a = false) (hc : isSeparator c = true)
    (hv : ∀ a ∈ v, isSeparator a = false) : Holds (k ++ c :: v) (parameterOf (k ++ c :: v)) := by
  rw [parameterOf, takeWhile_line hk hc, dropWhile_line hk hc]
  exact ⟨k, c, v, rfl, hk, hc, hv, trimmed_trim k, trimmed_trim v⟩

/-- A line holds one parameter only. -/
theorem holds_unique : Relator.RightUnique Holds := by
  intro l p q hp hq
  have heq : ∀ {r : Parameter}, Holds l r → r = parameterOf l := by
    rintro ⟨option, value⟩ ⟨k, c, v, rfl, hk, hc, -, hoption, hvalue⟩
    rw [parameterOf, takeWhile_line hk hc, dropWhile_line hk hc]
    exact congrArg₂ Parameter.mk (trimmed_iff.mp hoption) (trimmed_iff.mp hvalue)
  rw [heq hp, heq hq]

theorem splitOnP_line (hk : ∀ a ∈ k, isSeparator a = false) (hc : isSeparator c = true) :
    (k ++ c :: v).splitOnP isSeparator = k :: v.splitOnP isSeparator :=
  List.splitOnP_append_cons_of_forall_mem hk c hc v

theorem convertLine_eq (hk : ∀ a ∈ k, isSeparator a = false) (hc : isSeparator c = true)
    (hv : ∀ a ∈ v, isSeparator a = false) :
    convertLine (k ++ c :: v) = some (parameterOf (k ++ c :: v)) := by
  rw [convertLine, splitOnP_line hk hc, List.splitOnP_eq_singleton hv, parameterOf,
    takeWhile_line hk hc, dropWhile_line hk hc]
  rfl

theorem exists_first (hc : c ∈ l) (hsep : isSeparator c = true) : ∃ k a v, l = k ++ a :: v ∧
    (∀ b ∈ k, isSeparator b = false) ∧ isSeparator a = true := by
  have hne : l.dropWhile (fun a => !isSeparator a) ≠ [] := by
    intro hnil
    have hall := List.dropWhile_eq_nil_iff.mp hnil c hc
    simp [hsep] at hall
  obtain ⟨a, v, hav⟩ := List.exists_cons_of_ne_nil hne
  refine ⟨l.takeWhile fun a => !isSeparator a, a, v, ?_, fun b hb => ?_, ?_⟩
  · rw [← hav, List.takeWhile_append_dropWhile]
  · simpa using List.mem_takeWhile_imp hb
  · have hhead := List.head_dropWhile_not (fun a => !isSeparator a) hne
    simpa [hav] using hhead

/-- A line throws exactly when it has no separator. -/
theorem convertLine_isSome : (convertLine l).isSome ↔ ∃ c ∈ l, isSeparator c = true := by
  constructor
  · intro h
    by_contra hno
    have hnone : ∀ a ∈ l, isSeparator a = false := fun a ha =>
      Bool.eq_false_iff.mpr fun hsep => hno ⟨a, ha, hsep⟩
    rw [convertLine, List.splitOnP_eq_singleton hnone] at h
    cases h
  · rintro ⟨c, hc, hsep⟩
    obtain ⟨k, a, v, rfl, hk, ha⟩ := exists_first hc hsep
    obtain ⟨x, xs, hx⟩ := List.exists_cons_of_ne_nil (List.splitOnP_ne_nil isSeparator v)
    rw [convertLine, splitOnP_line hk ha, hx]
    rfl

/-- What a line of the pattern looks like. -/
theorem line_of_mem {separator : UInt16} (hs : isSeparator separator = true)
    (h : l ∈ (line separator).language) : ∃ k v, l = k ++ separator :: v ∧
      (∀ a ∈ k, plain a = true) ∧ ∀ a ∈ v, plain a = true := by
  obtain ⟨k, rest, rfl, hk, hrest⟩ := Pattern.mem_seq.mp h
  obtain ⟨s, v, rfl, ⟨a, ha, rfl⟩, hv⟩ := Pattern.mem_seq.mp hrest
  obtain rfl : a = separator := by simpa using ha
  exact ⟨k, v, rfl, (Pattern.mem_plus_one.mp hk).2, (Pattern.mem_plus_one.mp hv).2⟩

/-! ## Every line of an accepted text -/

theorem lines_of_test {separator : UInt16} (hs : isSeparator separator = true) {value : JsString}
    (h : (configPattern separator).test value = true) : ∀ l ∈ value.splitOnP isBreak,
      ∃ k v, l = k ++ separator :: v ∧ (∀ a ∈ k, isSeparator a = false) ∧
        ∀ a ∈ v, isSeparator a = false := by
  have hplain : ∀ {a : UInt16}, plain a = true → isSeparator a = false ∧ isBreak a = false := by
    intro a ha
    simpa [plain] using ha
  have hbreak : ∀ l ∈ (line separator).language, ∀ a ∈ l, isBreak a = false := by
    intro l hl a ha
    obtain ⟨k, v, rfl, hk, hv⟩ := line_of_mem hs hl
    rcases List.mem_append.mp ha with ha | ha
    · exact (hplain (hk a ha)).2
    · rcases List.mem_cons.mp ha with rfl | ha
      · rcases Bool.or_eq_true_iff.mp hs with he | he <;> (rw [beq_iff_eq.mp he]; rfl)
      · exact (hplain (hv a ha)).2
  intro l hl
  obtain ⟨k, v, rfl, hk, hv⟩ :=
    line_of_mem hs (Pattern.mem_of_sepBy hbreak ((Pattern.test_iff _ _).mp h) l hl)
  exact ⟨k, v, rfl, fun a ha => (hplain (hk a ha)).1, fun a ha => (hplain (hv a ha)).1⟩

theorem mapM_convertLine {ls : List JsString}
    (h : ∀ l ∈ ls, convertLine l = some (parameterOf l)) :
    ls.mapM convertLine = some (ls.map parameterOf) := by
  induction ls with
  | nil => rfl
  | cons l ls ih =>
    obtain ⟨hl, hls⟩ := List.forall_mem_cons.mp h
    rw [List.mapM_cons, hl, ih hls]
    rfl

/-- A text of one kind of line is understood line by line. -/
theorem understood_of_lines (separator : UInt16) (hs : isSeparator separator = true)
    {value : JsString} (h : ∀ l ∈ value.splitOnP isBreak, ∃ k v, l = k ++ separator :: v ∧
      (∀ a ∈ k, isSeparator a = false) ∧ ∀ a ∈ v, isSeparator a = false) :
    Understood value := by
  have hfilled : nonEmptyLines value = value.splitOnP isBreak := by
    refine List.filter_eq_self.mpr fun l hl => ?_
    obtain ⟨k, v, rfl, -⟩ := h l hl
    simp
  constructor
  · intro l hl
    obtain ⟨k, v, rfl, hk, hv⟩ := h l (hfilled ▸ hl)
    have hzero : ∀ {x : JsString}, (∀ a ∈ x, isSeparator a = false) →
        x.countP isSeparator = 0 := by
      intro x hx
      rw [List.countP_eq_zero]
      exact fun a ha => by simp [hx a ha]
    rw [List.countP_append, List.countP_cons_of_pos hs, hzero hk, hzero hv]
  · rintro rfl
    rfl
  · intro hne
    have hconvert : ∀ l ∈ value.splitOnP isBreak, convertLine l = some (parameterOf l) := by
      intro l hl
      obtain ⟨k, v, rfl, hk, hv⟩ := h l hl
      exact convertLine_eq hk hs hv
    refine ⟨(value.splitOnP isBreak).map parameterOf, ?_, ?_⟩
    · rw [convertModalParametersToArray, if_neg (by simpa using hne), mapM_convertLine hconvert]
      rfl
    · have hholds : List.Forall₂ Holds (nonEmptyLines value)
          ((value.splitOnP isBreak).map parameterOf) := by
        rw [hfilled, List.forall₂_map_right_iff, List.forall₂_same]
        intro l hl
        obtain ⟨k, v, rfl, hk, hv⟩ := h l hl
        exact holds_parameterOf hk hs hv
      exact fun qs => ⟨fun hqs => holds_unique.forall₂ hqs hholds, fun hqs => hqs ▸ hholds⟩

/-- What the validator accepts, the parser understands. -/
theorem accepted_understood {value : JsString} (h : configValidationSchema value = true) :
    Understood value := by
  rcases Bool.or_eq_true_iff.mp h with h | h
  · rcases Bool.or_eq_true_iff.mp h with h | h
    · exact understood_of_lines 58 rfl (lines_of_test rfl h)
    · exact understood_of_lines 61 rfl (lines_of_test rfl h)
  · obtain rfl : value = [] := List.isEmpty_iff.mp h
    exact ⟨fun l hl => absurd hl List.not_mem_nil, fun _ => rfl, fun hne => absurd rfl hne⟩

/-- Two lines with blanks around the separators: the parameters are the texts without them. -/
theorem accepted_understood_lines :
    configValidationSchema (js "max_connections : 100\nport:\t5432 ") = true ∧
      convertModalParametersToArray (some (js "max_connections : 100\nport:\t5432 ")) =
        some (.parameters [⟨js "max_connections", js "100"⟩, ⟨js "port", js "5432"⟩]) ∧
      Understood (js "max_connections : 100\nport:\t5432 ") :=
  ⟨by decide +kernel, by decide +kernel, accepted_understood (by decide +kernel)⟩

end ConsoleParameters
