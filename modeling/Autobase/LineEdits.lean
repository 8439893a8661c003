import Mathlib.Algebra.Group.Nat.Defs
import Mathlib.Data.List.Basic

/-! # Edits of a file line by line

A file is edited in place by replacing what matches a pattern within its lines, by deleting
lines, and by cutting sections out. The first keeps the number of lines and the others make it
smaller wherever they find something, so an edit of the first kind never undoes one of the
others. -/
namespace LineEdits

variable {α : Type*}

/-! ## Replacing within a line -/

/-- The length of the match at the beginning of a text. -/
abbrev Matcher (α : Type*) := List α → Option ℕ

def found (m : Matcher α) : List α → Bool
  | [] => false
  | c :: cs => (m (c :: cs)).isSome || found m cs

/-- Replace the matches from the left; `skip` symbols belong to the last one. -/
def replaceFrom (m : Matcher α) (new : List α) : ℕ → List α → List α
  | _, [] => []
  | skip + 1, _ :: cs => replaceFrom m new skip cs
  | 0, c :: cs =>
    match m (c :: cs) with
    | none => c :: replaceFrom m new 0 cs
    | some n => new ++ replaceFrom m new (n - 1) cs

def replace (m : Matcher α) (new : List α) (line : List α) : List α := replaceFrom m new 0 line

/-- A text begins with symbols of these classes. -/
def fits : List (α → Bool) → List α → Bool
  | [], _ => true
  | _ :: _, [] => false
  | p :: ps, c :: cs => p c && fits ps cs

def ofClasses (ps : List (α → Bool)) : Matcher α :=
  fun text => if fits ps text then some ps.length else none

variable {m : Matcher α} {new : List α}

@[simp] theorem replace_nil : replace m new [] = [] := rfl

theorem replace_ne_nil (hnew : new ≠ []) {line : List α} (h : line ≠ []) :
    replace m new line ≠ [] := by
  cases line with
  | nil => exact absurd rfl h
  | cons c cs =>
    rw [replace, replaceFrom]
    cases m (c :: cs) with
    | none => exact List.cons_ne_nil _ _
    | some n => exact List.append_ne_nil_of_left_ne_nil hnew _

theorem replace_eq_self {line : List α} (h : found m line = false) : replace m new line = line := by
  induction line with
  | nil => rfl
  | cons c cs ih =>
    obtain ⟨hhead, htail⟩ := Bool.or_eq_false_iff.mp h
    have hnone : m (c :: cs) = none :=
      Option.isNone_iff_eq_none.mp (Option.isSome_eq_false_iff.mp hhead)
    rw [replace, replaceFrom, hnone]
    exact congrArg (c :: ·) (ih htail)

theorem replaceFrom_append (before rest : List α) :
    replaceFrom m new before.length (before ++ rest) = replace m new rest := by
  induction before with
  | nil => rfl
  | cons c cs ih => exact ih

/-- Nothing matches in front of the match. -/
theorem replace_at (new : List α) {before matched : List α} (rest : List α) (hne : matched ≠ [])
    (hbefore : ∀ a c b, before = a ++ c :: b → m (c :: b ++ (matched ++ rest)) = none)
    (hmatch : m (matched ++ rest) = some matched.length) :
    replace m new (before ++ (matched ++ rest)) = before ++ (new ++ replace m new rest) := by
  induction before with
  | nil =>
    obtain ⟨c, cs, rfl⟩ := List.exists_cons_of_ne_nil hne
    rw [List.nil_append, List.nil_append, List.cons_append, replace, replaceFrom]
    rw [List.cons_append] at hmatch
    rw [hmatch]
    exact congrArg (new ++ ·) (replaceFrom_append cs rest)
  | cons c cs ih =>
    rw [List.cons_append, replace, replaceFrom, ← List.cons_append, hbefore [] c cs rfl]
    refine congrArg (c :: ·) (ih ?_)
    rintro a c' b rfl
    exact hbefore (c :: a) c' b rfl

theorem fits_append {ps : List (α → Bool)} {a : List α} (h : fits ps a = true) (b : List α) :
    fits ps (a ++ b) = true := by
  induction ps generalizing a with
  | nil => rfl
  | cons p ps ih =>
    cases a with
    | nil => cases h
    | cons c a =>
      obtain ⟨hc, ha⟩ := Bool.and_eq_true_iff.mp h
      exact Bool.and_eq_true_iff.mpr ⟨hc, ih ha⟩

/-- A sequence of classes that fits consists of a part that fits and one that fits the rest. -/
theorem fits_append_left {ps qs : List (α → Bool)} {text : List α} :
    fits (ps ++ qs) text = true ↔
      ∃ a b, text = a ++ b ∧ a.length = ps.length ∧ fits ps a = true ∧ fits qs b = true := by
  induction ps generalizing text with
  | nil =>
    constructor
    · intro h
      exact ⟨[], text, rfl, rfl, rfl, h⟩
    · rintro ⟨a, b, rfl, hlength, -, h⟩
      obtain rfl := List.length_eq_zero_iff.mp hlength
      exact h
  | cons p ps ih =>
    cases text with
    | nil =>
      constructor
      · intro h
        cases h
      · rintro ⟨a, b, htext, hlength, -, -⟩
        obtain ⟨rfl, -⟩ := List.append_eq_nil_iff.mp htext.symm
        cases hlength
    | cons c text =>
      rw [List.cons_append, fits, Bool.and_eq_true_iff, ih]
      constructor
      · rintro ⟨hc, a, b, rfl, hlength, ha, hb⟩
        exact ⟨c :: a, b, rfl, congrArg (· + 1) hlength, Bool.and_eq_true_iff.mpr ⟨hc, ha⟩, hb⟩
      · rintro ⟨a, b, htext, hlength, ha, hb⟩
        cases a with
        | nil => cases hlength
        | cons c' a =>
          obtain ⟨rfl, rfl⟩ := List.cons.inj htext
          obtain ⟨hc, ha⟩ := Bool.and_eq_true_iff.mp ha
          exact ⟨hc, a, b, rfl, Nat.succ.inj hlength, ha, hb⟩

theorem found_of {a b : List α} (hb : b ≠ []) (h : (m b).isSome) : found m (a ++ b) = true := by
  induction a with
  | nil =>
    obtain ⟨c, cs, rfl⟩ := List.exists_cons_of_ne_nil hb
    exact Bool.or_eq_true_iff.mpr (.inl h)
  | cons c a ih => exact Bool.or_eq_true_iff.mpr (.inr ih)

/-- A match begins somewhere in the text. -/
theorem exists_of_found {line : List α} (h : found m line = true) :
    ∃ a b, line = a ++ b ∧ (m b).isSome := by
  induction line with
  | nil => cases h
  | cons c cs ih =>
    rcases Bool.or_eq_true_iff.mp h with h | h
    · exact ⟨[], c :: cs, rfl, h⟩
    · obtain ⟨a, b, rfl, hb⟩ := ih h
      exact ⟨c :: a, b, rfl, hb⟩

/-! ## Files -/

/-- The terminated lines of a file, without their terminators, and what stands behind the last
one. -/
@[ext] structure File (α : Type*) where
  lines : List (List α)
  rest : List α
  deriving DecidableEq

namespace File

def all (f : File α) : List (List α) := f.lines ++ [f.rest]

/-- The text behind the last terminator is a line unless it is empty. -/
def size (f : File α) : ℕ := f.lines.length + min 1 f.rest.length

def cons (line : List α) (f : File α) : File α := { f with lines := line :: f.lines }

def map (edit : List α → List α) (f : File α) : File α := ⟨f.lines.map edit, edit f.rest⟩

def delete (p : List α → Bool) (f : File α) : File α :=
  ⟨f.lines.filter fun line => !p line, if p f.rest then [] else f.rest⟩

@[simp] theorem size_cons (line : List α) (f : File α) : (f.cons line).size = f.size + 1 := by
  simp only [size, cons, List.length_cons]
  omega

theorem map_eq_self {edit : List α → List α} {f : File α} (h : ∀ line ∈ f.all, edit line = line) :
    f.map edit = f := by
  obtain ⟨hlines, hrest⟩ := List.forall_mem_append.mp h
  refine File.ext ?_ (hrest f.rest (List.mem_singleton_self _))
  exact (List.map_congr_left hlines).trans (List.map_id' _)

theorem map_map (edit edit' : List α → List α) (f : File α) :
    (f.map edit).map edit' = f.map (edit' ∘ edit) :=
  File.ext List.map_map rfl

theorem size_map {edit : List α → List α} (f : File α) (hnil : edit [] = [])
    (hne : ∀ line, line ≠ [] → edit line ≠ []) : (f.map edit).size = f.size := by
  have hrest : min 1 (edit f.rest).length = min 1 f.rest.length := by
    by_cases h : f.rest = []
    · rw [h, hnil]
    · have hbefore := List.length_pos_iff.mpr h
      have hafter := List.length_pos_iff.mpr (hne _ h)
      omega
  rw [size, size, map, List.length_map]
  exact congrArg (f.lines.length + ·) hrest

variable {p : List α → Bool} {f : File α}

theorem delete_eq_self (h : ∀ line ∈ f.all, p line = false) : f.delete p = f := by
  obtain ⟨hlines, hrest⟩ := List.forall_mem_append.mp h
  refine File.ext ?_ ?_
  · refine List.filter_eq_self.mpr fun line hline => ?_
    rw [hlines line hline]
    rfl
  · exact if_neg (by rw [hrest f.rest (List.mem_singleton_self _)]; exact Bool.false_ne_true)

theorem size_delete_le : (f.delete p).size ≤ f.size := by
  have hlines : (f.lines.filter fun line => !p line).length ≤ f.lines.length :=
    List.length_filter_le _ _
  rw [size, size, delete]
  by_cases h : p f.rest = true
  · simp only [h, if_true, List.length_nil]
    omega
  · simp only [h, Bool.false_eq_true, if_false]
    omega

/-- The empty text behind the last terminator is no line. -/
theorem size_delete_lt (hnil : p [] = false) {line : List α} (hmem : line ∈ f.all)
    (hp : p line = true) : (f.delete p).size < f.size := by
  have hle : (f.lines.filter fun line => !p line).length ≤ f.lines.length :=
    List.length_filter_le _ _
  rw [size, size, delete]
  rcases List.mem_append.mp hmem with hmem | hmem
  · have hlt : (f.lines.filter fun line => !p line).length < f.lines.length := by
      refine List.length_filter_lt_length_iff_exists.mpr ⟨line, hmem, ?_⟩
      rw [hp]
      exact Bool.false_ne_true
    by_cases h : p f.rest = true
    · simp only [h, if_true, List.length_nil]
      omega
    · simp only [h, Bool.false_eq_true, if_false]
      omega
  · obtain rfl := List.mem_singleton.mp hmem
    have hpos : 0 < f.rest.length := by
      refine List.length_pos_iff.mpr fun h => ?_
      rw [h, hnil] at hp
      cases hp
    simp only [hp, if_true, List.length_nil]
    omega

end File

/-! ## Cutting sections out -/

/-- A section has a first line, with blank lines before it, and reaches up to the first mark
behind that line. A mark found in a line leaves what follows it there. -/
structure Section (α : Type*) where
  blank : List α → Bool
  first : List α → Bool
  mark : List α → Option (List α)

namespace Section

variable (sec : Section α)

/-- The lines behind the first one. -/
def opens : List (List α) → Option (List (List α))
  | [] => none
  | l :: ls => if sec.blank l then opens ls else if sec.first l then some ls else none

def upToMark : List (List α) → List α → Option (File α)
  | [], rest => (sec.mark rest).map fun text => ⟨[], text⟩
  | l :: ls, rest =>
    match sec.mark l with
    | some text => some ⟨text :: ls, rest⟩
    | none => upToMark ls rest

/-- What is left of a file that begins with a section. -/
def after (lines : List (List α)) (rest : List α) : Option (File α) :=
  (sec.opens lines).bind fun ls => sec.upToMark ls rest

def occurs : List (List α) → List α → Bool
  | [], _ => false
  | l :: ls, rest => (sec.after (l :: ls) rest).isSome || occurs ls rest

/-- Put `new` for every section and its mark; every section has a line, so that the number of
lines is fuel enough. -/
def cutLines (new : List α) : ℕ → List (List α) → List α → File α
  | 0, ls, rest => ⟨ls, rest⟩
  | _ + 1, [], rest => ⟨[], rest⟩
  | fuel + 1, l :: ls, rest =>
    match sec.after (l :: ls) rest with
    | none => (cutLines new fuel ls rest).cons l
    | some ⟨[], text⟩ => ⟨[], new ++ text⟩
    | some ⟨text :: ls', rest'⟩ => (cutLines new fuel ls' rest').cons (new ++ text)

def cut (new : List α) (f : File α) : File α := sec.cutLines new f.lines.length f.lines f.rest

variable {sec} {new : List α}

theorem length_of_opens {ls left : List (List α)} (h : sec.opens ls = some left) :
    left.length < ls.length := by
  induction ls with
  | nil => cases h
  | cons l ls ih =>
    rw [opens] at h
    rw [List.length_cons]
    split_ifs at h
    · exact Nat.lt_succ_of_lt (ih h)
    · obtain rfl := Option.some.inj h
      exact Nat.lt_succ_self _

/-- Up to the mark no line is added; the file ends in the text behind the mark, or as before. -/
theorem upToMark_cases {ls : List (List α)} {rest : List α} {g : File α}
    (h : sec.upToMark ls rest = some g) :
    (g.lines = [] ∧ (sec.mark rest).isSome) ∨
      ∃ text ls', g = ⟨text :: ls', rest⟩ ∧ ls'.length < ls.length := by
  induction ls with
  | nil =>
    obtain ⟨text, hmark, rfl⟩ := Option.map_eq_some_iff.mp h
    exact .inl ⟨rfl, Option.isSome_of_eq_some hmark⟩
  | cons l ls ih =>
    rw [upToMark] at h
    cases hmark : sec.mark l with
    | some text =>
      rw [hmark] at h
      obtain rfl := Option.some.inj h
      exact .inr ⟨text, ls, rfl, Nat.lt_succ_self _⟩
    | none =>
      rw [hmark] at h
      rcases ih h with hlast | ⟨text, ls', rfl, hlength⟩
      · exact .inl hlast
      · exact .inr ⟨text, ls', rfl, Nat.lt_succ_of_lt hlength⟩

theorem after_cases {ls : List (List α)} {rest : List α} {g : File α}
    (h : sec.after ls rest = some g) :
    (g.lines = [] ∧ (sec.mark rest).isSome) ∨
      ∃ text ls', g = ⟨text :: ls', rest⟩ ∧ ls'.length + 1 < ls.length := by
  obtain ⟨left, hopens, hmark⟩ := Option.bind_eq_some_iff.mp h
  have hlength := length_of_opens hopens
  rcases upToMark_cases hmark with ⟨hlines, hsome⟩ | ⟨text, ls', rfl, hlt⟩
  · exact .inl ⟨hlines, hsome⟩
  · exact .inr ⟨text, ls', rfl, by omega⟩

theorem cutLines_eq_self {ls : List (List α)} {rest : List α} (h : sec.occurs ls rest = false)
    (fuel : ℕ) : sec.cutLines new fuel ls rest = ⟨ls, rest⟩ := by
  induction fuel generalizing ls with
  | zero => rfl
  | succ fuel ih =>
    cases ls with
    | nil => rfl
    | cons l ls =>
      obtain ⟨hhead, htail⟩ := Bool.or_eq_false_iff.mp h
      have hnone : sec.after (l :: ls) rest = none :=
        Option.isNone_iff_eq_none.mp (Option.isSome_eq_false_iff.mp hhead)
      rw [cutLines, hnone]
      exact congrArg (File.cons l) (ih htail)

theorem cut_eq_self {f : File α} (h : sec.occurs f.lines f.rest = false) : sec.cut new f = f :=
  cutLines_eq_self h _

/-- Sections are cut out, and each one that is takes a line along. -/
theorem size_cutLines (hmark : sec.mark [] = none) (fuel : ℕ)
    {ls : List (List α)} {rest : List α} (hfuel : ls.length ≤ fuel) :
    (sec.cutLines new fuel ls rest).size ≤ (File.mk ls rest).size ∧
      (sec.occurs ls rest = true →
        (sec.cutLines new fuel ls rest).size < (File.mk ls rest).size) := by
  induction fuel generalizing ls with
  | zero =>
    obtain rfl := List.length_eq_zero_iff.mp (Nat.le_zero.mp hfuel)
    exact ⟨Nat.le_refl _, fun h => by cases h⟩
  | succ fuel ih =>
    cases ls with
    | nil => exact ⟨Nat.le_refl _, fun h => by cases h⟩
    | cons l ls =>
      have hwhole : (File.mk (l :: ls) rest).size = (File.mk ls rest).size + 1 :=
        File.size_cons l ⟨ls, rest⟩
      rw [cutLines]
      cases hafter : sec.after (l :: ls) rest with
      | none =>
        obtain ⟨hle, hlt⟩ := ih (Nat.le_of_succ_le_succ hfuel)
        simp only [File.size_cons, hwhole]
        refine ⟨Nat.succ_le_succ hle, fun h => Nat.succ_lt_succ (hlt ?_)⟩
        rw [occurs, hafter] at h
        exact h
      | some g =>
        rcases after_cases hafter with ⟨hlines, hsome⟩ | ⟨text, ls', rfl, hlength⟩
        · obtain ⟨lines, text⟩ := g
          obtain rfl : lines = [] := hlines
          have hrest : 0 < rest.length := by
            refine List.length_pos_iff.mpr ?_
            rintro rfl
            rw [hmark] at hsome
            cases hsome
          have hlt : (File.mk [] (new ++ text)).size < (File.mk (l :: ls) rest).size := by
            simp only [File.size, List.length_nil, List.length_cons]
            omega
          exact ⟨Nat.le_of_lt hlt, fun _ => hlt⟩
        · have hshort : ls'.length < ls.length := Nat.lt_of_succ_lt_succ hlength
          obtain ⟨hle, -⟩ := ih (Nat.le_trans (Nat.le_of_lt hshort) (Nat.le_of_succ_le_succ hfuel))
          have hlt : ((sec.cutLines new fuel ls' rest).cons (new ++ text)).size <
              (File.mk (l :: ls) rest).size := by
            rw [File.size_cons]
            simp only [File.size, List.length_cons] at hle ⊢
            omega
          exact ⟨Nat.le_of_lt hlt, fun _ => hlt⟩

theorem size_cut_le (hmark : sec.mark [] = none) (f : File α) :
    (sec.cut new f).size ≤ f.size :=
  (size_cutLines hmark _ (Nat.le_refl _)).1

theorem size_cut_lt (hmark : sec.mark [] = none) {f : File α}
    (h : sec.occurs f.lines f.rest = true) : (sec.cut new f).size < f.size :=
  (size_cutLines hmark _ (Nat.le_refl _)).2 h

/-! ## One section -/

variable {ls before body after : List (List α)} {rest first last text : List α}

theorem after_cons (l : List α) (ls : List (List α)) (rest : List α) :
    sec.after (l :: ls) rest = if sec.blank l then sec.after ls rest
      else if sec.first l then sec.upToMark ls rest else none := by
  rw [Section.after, opens]
  split
  · rfl
  · split <;> rfl

theorem after_eq_none (h : sec.occurs ls rest = false) : sec.after ls rest = none := by
  cases ls with
  | nil => rfl
  | cons l ls =>
    exact Option.isNone_iff_eq_none.mp
      (Option.isSome_eq_false_iff.mp (Bool.or_eq_false_iff.mp h).1)

/-- Lines of which none is a first one begin no section. -/
theorem occurs_append (hbefore : ∀ l ∈ before, sec.first l = false)
    (h : sec.occurs ls rest = false) : sec.occurs (before ++ ls) rest = false := by
  induction before with
  | nil => exact h
  | cons l before ih =>
    obtain ⟨hl, hrest⟩ := List.forall_mem_cons.mp hbefore
    have htail := ih hrest
    rw [List.cons_append, occurs, htail, Bool.or_false, after_cons, after_eq_none htail, hl]
    exact congrArg Option.isSome (ite_self _)

theorem upToMark_eq_none (h : ∀ l ∈ ls, sec.mark l = none) (hrest : sec.mark rest = none) :
    sec.upToMark ls rest = none := by
  induction ls with
  | nil => rw [upToMark, hrest]; rfl
  | cons l ls ih =>
    obtain ⟨hl, hls⟩ := List.forall_mem_cons.mp h
    rw [upToMark, hl]
    exact ih hls

/-- No section occurs where no first line has a mark behind it. -/
theorem occurs_eq_false (h : ls.Pairwise fun l l' => sec.first l = true → sec.mark l' = none)
    (hrest : sec.mark rest = none) : sec.occurs ls rest = false := by
  induction ls with
  | nil => rfl
  | cons l ls ih =>
    obtain ⟨hl, hls⟩ := List.pairwise_cons.mp h
    have htail := ih hls
    rw [occurs, htail, Bool.or_false, after_cons, after_eq_none htail]
    split
    · rfl
    · split
      · next hfirst => rw [upToMark_eq_none (fun l' hl' => hl l' hl' hfirst) hrest]; rfl
      · rfl

theorem opens_section (hbefore : ∀ l ∈ before, sec.first l = false)
    (hblank : sec.blank first = false) (hfirst : sec.first first = true) :
    sec.opens (before ++ first :: ls) = if before.all sec.blank then some ls else none := by
  induction before with
  | nil =>
    rw [List.nil_append, opens, hblank, hfirst]
    rfl
  | cons l before ih =>
    obtain ⟨hl, hrest⟩ := List.forall_mem_cons.mp hbefore
    rw [List.cons_append, opens, List.all_cons, ih hrest, hl]
    cases sec.blank l <;> rfl

theorem upToMark_section (hbody : ∀ l ∈ body, sec.mark l = none)
    (hlast : sec.mark last = some text) :
    sec.upToMark (body ++ last :: after) rest = some ⟨text :: after, rest⟩ := by
  induction body with
  | nil => rw [List.nil_append, upToMark, hlast]
  | cons l body ih =>
    obtain ⟨hl, hrest⟩ := List.forall_mem_cons.mp hbody
    rw [List.cons_append, upToMark, hl]
    exact ih hrest

theorem cutLines_section (hbefore : ∀ l ∈ before, sec.first l = false)
    (hblank : sec.blank first = false) (hfirst : sec.first first = true)
    (hbody : ∀ l ∈ body, sec.mark l = none) (hlast : sec.mark last = some text)
    (hafter : sec.occurs after rest = false) {fuel : ℕ}
    (hfuel : (before ++ first :: (body ++ last :: after)).length ≤ fuel) :
    ∃ kept, sec.cutLines new fuel (before ++ first :: (body ++ last :: after)) rest =
        ⟨kept ++ (new ++ text) :: after, rest⟩ ∧
      kept.filter (fun l => !sec.blank l) = before.filter fun l => !sec.blank l := by
  have hopens : sec.opens (before ++ first :: (body ++ last :: after)) = _ :=
    opens_section hbefore hblank hfirst
  induction before generalizing fuel with
  | nil =>
    obtain ⟨fuel, rfl⟩ := Nat.exists_eq_add_of_le' (Nat.le_trans (Nat.le_add_left 1 _) hfuel)
    have hsection : sec.after (first :: (body ++ last :: after)) rest =
        some ⟨text :: after, rest⟩ := by
      rw [Section.after, ← List.nil_append (first :: _), hopens]
      exact upToMark_section hbody hlast
    refine ⟨[], ?_, rfl⟩
    rw [List.nil_append, cutLines, hsection]
    simp only [cutLines_eq_self hafter]
    rfl
  | cons l before ih =>
    obtain ⟨fuel, rfl⟩ := Nat.exists_eq_add_of_le' (Nat.le_trans (Nat.le_add_left 1 _) hfuel)
    have hrest := (List.forall_mem_cons.mp hbefore).2
    rw [List.cons_append, cutLines, ← List.cons_append, Section.after, hopens]
    by_cases hall : (l :: before).all sec.blank = true
    · rw [if_pos hall, Option.bind_some, upToMark_section hbody hlast]
      refine ⟨[], ?_, ?_⟩
      · simp only [cutLines_eq_self hafter]
        rfl
      · refine (List.filter_eq_nil_iff.mpr fun x hx => ?_).symm
        rw [List.all_eq_true.mp hall x hx]
        decide
    · rw [if_neg hall, Option.bind_none]
      obtain ⟨kept, hcut, hkept⟩ := ih hrest
        (Nat.le_of_succ_le_succ (by simpa using hfuel)) (opens_section hrest hblank hfirst)
      refine ⟨l :: kept, ?_, ?_⟩
      · simp only [hcut]
        rfl
      · rw [List.filter_cons, List.filter_cons, hkept]

/-- A single section goes with its mark, and of the lines before it only blank ones. -/
theorem cut_section (hbefore : ∀ l ∈ before, sec.first l = false)
    (hblank : sec.blank first = false) (hfirst : sec.first first = true)
    (hbody : ∀ l ∈ body, sec.mark l = none) (hlast : sec.mark last = some text)
    (hafter : sec.occurs after rest = false) :
    ∃ kept, sec.cut new ⟨before ++ first :: (body ++ last :: after), rest⟩ =
        ⟨kept ++ (new ++ text) :: after, rest⟩ ∧
      kept.filter (fun l => !sec.blank l) = before.filter fun l => !sec.blank l :=
  cutLines_section hbefore hblank hfirst hbody hlast hafter (Nat.le_refl _)

end Section

end LineEdits
