import Mathlib.Data.List.Infix

/-! # Directories named by path texts

A path text is resolved to the list of names from the root, so that two texts of one directory
give the same list and a directory above another one gives a prefix. Texts are also rewritten:
all occurrences of a text are replaced, and a closing slash is dropped. -/
namespace DirectoryPaths

abbrev Text := List Char

/-! ## Resolution -/

def enter (at_ : List Text) (name : Text) : List Text :=
  if name = [] ∨ name = ['.'] then at_
  else if name = ['.', '.'] then at_.dropLast
  else at_ ++ [name]

def resolve (base names : List Text) : List Text := names.foldl enter base

/-- A path that starts with a slash is resolved from the root. -/
def start (cwd : List Text) (path : Text) : List Text :=
  if path.head? = some '/' then [] else cwd

def directory (cwd : List Text) (path : Text) : List Text :=
  resolve (start cwd path) (path.splitOn '/')

/-- Removing the first path takes the second one away: it is the same directory or above it. The
empty text names nothing. -/
def Covers (cwd : List Text) (path other : Text) : Prop :=
  path ≠ [] ∧ other ≠ [] ∧ directory cwd path <+: directory cwd other

instance (cwd : List Text) (path other : Text) : Decidable (Covers cwd path other) :=
  inferInstanceAs (Decidable (_ ∧ _))

variable {cwd : List Text} {p q r : Text}

theorem resolve_append (base xs ys : List Text) :
    resolve base (xs ++ ys) = resolve (resolve base xs) ys :=
  List.foldl_append

theorem start_append (h : p ≠ []) : start cwd (p ++ q) = start cwd p := by
  rw [start, start, List.head?_append_of_ne_nil _ h]

/-- What follows a slash is resolved from the directory before it. -/
theorem directory_slash (h : p ≠ []) (q : Text) :
    directory cwd (p ++ '/' :: q) = resolve (directory cwd p) (q.splitOn '/') := by
  rw [directory, start_append h, List.splitOn_append_cons_self, resolve_append, ← directory]

/-- A closing slash does not change the directory. -/
theorem directory_closing (h : p ≠ []) : directory cwd (p ++ ['/']) = directory cwd p := by
  rw [directory_slash h]
  rfl

/-! ## Replacement -/

/-- `skip` characters belong to an occurrence that has been replaced. -/
def replaceFrom (old new : Text) : ℕ → Text → Text
  | _, [] => []
  | 0, c :: cs =>
    if old.isPrefixOf (c :: cs) then new ++ replaceFrom old new (old.length - 1) cs
    else c :: replaceFrom old new 0 cs
  | skip + 1, _ :: cs => replaceFrom old new skip cs

/-- All occurrences from left to right; the empty text occurs around every character. -/
def replace (old new text : Text) : Text :=
  if old = [] then new ++ text.flatMap fun c => c :: new else replaceFrom old new 0 text

theorem replaceFrom_eq_self {old new text : Text} (h : ¬ old <:+: text) :
    replaceFrom old new 0 text = text := by
  induction text with
  | nil => rfl
  | cons c cs ih =>
    have hprefix : old.isPrefixOf (c :: cs) = false := by
      rw [Bool.eq_false_iff, ne_eq, List.isPrefixOf_iff_prefix]
      exact fun hp => h hp.isInfix
    have hinfix : ¬ old <:+: cs := fun hi => h (hi.trans (List.infix_cons (List.infix_refl cs)))
    simp only [replaceFrom, hprefix, Bool.false_eq_true, if_false, ih hinfix]

/-- A text that does not occur is not replaced. -/
theorem replace_eq_self {old new text : Text} (hne : old ≠ []) (h : ¬ old <:+: text) :
    replace old new text = text := by
  rw [replace, if_neg hne, replaceFrom_eq_self h]

variable {old new new' : Text}

theorem replace_of_ne (hne : old ≠ []) (text : Text) :
    replace old new text = replaceFrom old new 0 text :=
  if_neg hne

theorem replaceFrom_drop (k : ℕ) (text : Text) :
    replaceFrom old new k text = replaceFrom old new 0 (text.drop k) := by
  induction k generalizing text with
  | zero => rfl
  | succ k ih =>
    cases text with
    | nil => rfl
    | cons c cs => exact ih cs

theorem replaceFrom_old (hne : old ≠ []) (rest : Text) :
    replaceFrom old new 0 (old ++ rest) = new ++ replaceFrom old new 0 rest := by
  obtain ⟨c, cs, rfl⟩ := List.exists_cons_of_ne_nil hne
  have hprefix : (c :: cs).isPrefixOf (c :: (cs ++ rest)) = true :=
    List.isPrefixOf_iff_prefix.mpr ⟨rest, rfl⟩
  rw [List.cons_append, replaceFrom, if_pos hprefix, replaceFrom_drop]
  simp

theorem replaceFrom_cons {c : Char} {cs : Text} (h : ¬ old <+: c :: cs) :
    replaceFrom old new 0 (c :: cs) = c :: replaceFrom old new 0 cs := by
  rw [replaceFrom, if_neg]
  rwa [List.isPrefixOf_iff_prefix]

/-- What a text begins with: an occurrence, or a character that none begins with. -/
theorem replaceFrom_cases (old text : Text) : text = [] ∨ (∃ rest, text = old ++ rest) ∨
    ∃ c cs, text = c :: cs ∧ ¬ old <+: c :: cs := by
  cases text with
  | nil => exact Or.inl rfl
  | cons c cs =>
    by_cases h : old <+: c :: cs
    · obtain ⟨rest, hrest⟩ := h
      exact Or.inr (Or.inl ⟨rest, hrest.symm⟩)
    · exact Or.inr (Or.inr ⟨c, cs, rfl, h⟩)

/-- Induction on a text from one occurrence to the next. -/
theorem replace_induction {P : Text → Prop} (hne : old ≠ []) (hnil : P [])
    (hoccurs : ∀ rest, P rest → P (old ++ rest))
    (hchar : ∀ c cs, ¬ old <+: c :: cs → P cs → P (c :: cs)) (text : Text) : P text := by
  induction hlength : text.length using Nat.strong_induction_on generalizing text with
  | _ n ih =>
    subst hlength
    rcases replaceFrom_cases old text with rfl | ⟨rest, rfl⟩ | ⟨c, cs, rfl, h⟩
    · exact hnil
    · refine hoccurs rest (ih rest.length ?_ rest rfl)
      have hpos := List.length_pos_iff.mpr hne
      rw [List.length_append]
      omega
    · exact hchar c cs h (ih cs.length (Nat.lt_succ_self _) cs rfl)

theorem replace_self (hne : old ≠ []) (text : Text) : replace old old text = text := by
  rw [replace_of_ne hne]
  induction text using replace_induction hne with
  | hnil => rfl
  | hoccurs rest ih => rw [replaceFrom_old hne, ih]
  | hchar c cs h ih => rw [replaceFrom_cons h, ih]

theorem replace_ne_nil (hne : old ≠ []) (hnew : new ≠ []) {text : Text} (h : text ≠ []) :
    replace old new text ≠ [] := by
  rw [replace_of_ne hne]
  rcases replaceFrom_cases old text with rfl | ⟨rest, rfl⟩ | ⟨c, cs, rfl, hnot⟩
  · exact absurd rfl h
  · rw [replaceFrom_old hne]
    exact List.append_ne_nil_of_left_ne_nil hnew _
  · rw [replaceFrom_cons hnot]
    exact List.cons_ne_nil _ _

/-- An occurrence is gone and the new text stands there. -/
theorem infix_replace (hne : old ≠ []) {text : Text} (h : old <:+: text) :
    new <:+: replace old new text := by
  rw [replace_of_ne hne]
  induction text using replace_induction hne with
  | hnil => exact absurd (List.infix_nil.mp h) hne
  | hoccurs rest _ =>
    rw [replaceFrom_old hne]
    exact (List.prefix_append new _).isInfix
  | hchar c cs hnot ih =>
    rw [replaceFrom_cons hnot]
    exact List.infix_cons (ih ((List.infix_cons_iff.mp h).resolve_left hnot))

/-- Two texts in the place of an occurrence make two texts. -/
theorem replace_inj (hne : old ≠ []) {text : Text} (h : old <:+: text)
    (heq : replace old new text = replace old new' text) : new = new' := by
  rw [replace_of_ne hne, replace_of_ne hne] at heq
  have hlength : ∃ n m : ℕ, 0 < m ∧
      ∀ w : Text, (replaceFrom old w 0 text).length = n + m * w.length := by
    clear heq
    have hcount : ∀ text : Text, ∃ n m : ℕ, (old <:+: text → 0 < m) ∧
        ∀ w : Text, (replaceFrom old w 0 text).length = n + m * w.length := by
      intro text
      induction text using replace_induction hne with
      | hnil =>
        exact ⟨0, 0, fun hi => absurd (List.infix_nil.mp hi) hne, fun w => by simp [replaceFrom]⟩
      | hoccurs rest ih =>
        obtain ⟨n, m, -, hw⟩ := ih
        refine ⟨n, m + 1, fun _ => Nat.succ_pos m, fun w => ?_⟩
        rw [replaceFrom_old hne, List.length_append, hw, Nat.succ_mul]
        omega
      | hchar c cs hnot ih =>
        obtain ⟨n, m, hm, hw⟩ := ih
        refine ⟨n + 1, m, fun hi => hm ((List.infix_cons_iff.mp hi).resolve_left hnot), fun w => ?_⟩
        rw [replaceFrom_cons hnot, List.length_cons, hw]
        omega
    obtain ⟨n, m, hm, hw⟩ := hcount text
    exact ⟨n, m, hm h, hw⟩
  have hsame : new.length = new'.length := by
    obtain ⟨n, m, hm, hw⟩ := hlength
    have hlengths := congrArg List.length heq
    rw [hw, hw] at hlengths
    exact Nat.eq_of_mul_eq_mul_left hm (Nat.add_left_cancel hlengths)
  clear hlength
  induction text using replace_induction hne with
  | hnil => exact absurd (List.infix_nil.mp h) hne
  | hoccurs rest _ =>
    rw [replaceFrom_old hne, replaceFrom_old hne] at heq
    exact (List.append_inj heq hsame).1
  | hchar c cs hnot ih =>
    rw [replaceFrom_cons hnot, replaceFrom_cons hnot] at heq
    exact ih ((List.infix_cons_iff.mp h).resolve_left hnot) (List.cons.inj heq).2

/-! ## Replacement in the names of a path -/

/-- An occurrence does not reach over a slash. -/
theorem replaceFrom_slash (hne : old ≠ []) (hold : '/' ∉ old) (a b : Text) :
    replaceFrom old new 0 (a ++ '/' :: b) =
      replaceFrom old new 0 a ++ '/' :: replaceFrom old new 0 b := by
  have hcut : ∀ x : Text, old <+: x ++ '/' :: b → old <+: x := by
    intro x hx
    rcases List.prefix_or_prefix_of_prefix hx (List.prefix_append x _) with h | ⟨rest, rfl⟩
    · exact h
    · cases rest with
      | nil => rw [List.append_nil]
      | cons c rest =>
        obtain ⟨rfl, -⟩ := List.cons_prefix_cons.mp ((List.prefix_append_right_inj x).mp hx)
        exact absurd (List.mem_append_right _ List.mem_cons_self) hold
  induction a using replace_induction hne with
  | hnil =>
    refine replaceFrom_cons fun h => ?_
    exact hne (List.prefix_nil.mp (hcut [] h))
  | hoccurs rest ih =>
    rw [List.append_assoc, replaceFrom_old hne, replaceFrom_old hne, ih, List.append_assoc]
  | hchar c cs hnot ih =>
    have hlong : ¬ old <+: c :: (cs ++ '/' :: b) := fun h => hnot (hcut (c :: cs) h)
    rw [List.cons_append, replaceFrom_cons hlong, ih, replaceFrom_cons hnot, List.cons_append]

theorem slash_notMem_replace (hne : old ≠ []) (hnew : '/' ∉ new) {text : Text}
    (h : '/' ∉ text) : '/' ∉ replace old new text := by
  rw [replace_of_ne hne]
  induction text using replace_induction hne with
  | hnil => exact List.not_mem_nil
  | hoccurs rest ih =>
    rw [replaceFrom_old hne, List.mem_append, not_or]
    exact ⟨hnew, ih fun hm => h (List.mem_append_right _ hm)⟩
  | hchar c cs hnot ih =>
    rw [replaceFrom_cons hnot, List.mem_cons, not_or]
    exact ⟨fun hc => h (hc ▸ List.mem_cons_self), ih fun hm => h (List.mem_cons_of_mem _ hm)⟩

/-- The names of a path are replaced one by one. -/
theorem splitOn_replace (hne : old ≠ []) (hold : '/' ∉ old) (hnew : '/' ∉ new) (p : Text) :
    (replace old new p).splitOn '/' = (p.splitOn '/').map (replace old new) := by
  induction hlength : p.length using Nat.strong_induction_on generalizing p with
  | _ n ih =>
    subst hlength
    by_cases hslash : '/' ∈ p
    · obtain ⟨a, b, rfl, ha⟩ := List.eq_append_cons_of_mem hslash
      have hb := ih b.length (by rw [List.length_append, List.length_cons]; omega) b rfl
      have hsplit : replace old new (a ++ '/' :: b) =
          replace old new a ++ '/' :: replace old new b := by
        rw [replace_of_ne hne, replace_of_ne hne, replace_of_ne hne, replaceFrom_slash hne hold]
      rw [hsplit, List.splitOn_append_cons_self, List.splitOn_append_cons_self, hb,
        List.splitOn_eq_singleton ha,
        List.splitOn_eq_singleton (slash_notMem_replace hne hnew ha)]
      rfl
    · rw [List.splitOn_eq_singleton hslash,
        List.splitOn_eq_singleton (slash_notMem_replace hne hnew hslash)]
      rfl

/-- A name that is no directory of its own. -/
def IsDots (name : Text) : Prop := name = [] ∨ name = ['.'] ∨ name = ['.', '.']

/-- A change of names that makes no dots of them and leaves the dots alone. -/
structure KeepsDots (edit : Text → Text) : Prop where
  dots : ∀ name, IsDots name → edit name = name
  names : ∀ name, ¬ IsDots name → ¬ IsDots (edit name)

theorem enter_of_name {name : Text} (h : ¬ IsDots name) (at_ : List Text) :
    enter at_ name = at_ ++ [name] := by
  rw [IsDots, not_or, not_or] at h
  rw [enter, if_neg (not_or.mpr ⟨h.1, h.2.1⟩), if_neg h.2.2]

/-- A name behind a slash is a directory below. -/
theorem directory_below (hne : p ≠ []) (cwd : List Text) {name : Text} (hslash : '/' ∉ name)
    (hname : ¬ IsDots name) : directory cwd (p ++ '/' :: name) = directory cwd p ++ [name] := by
  rw [directory_slash hne, List.splitOn_eq_singleton hslash, resolve, List.foldl_cons,
    List.foldl_nil, enter_of_name hname]

/-- Whatever the names become, they are resolved alike: the same ones are left, behind the same
part of the base. -/
theorem resolve_map (base names : List Text) : ∃ kept, ∀ edit, KeepsDots edit →
    resolve base (names.map edit) = kept ++ (resolve [] names).map edit := by
  induction names using List.reverseRecOn with
  | nil => exact ⟨base, fun edit _ => by simp [resolve]⟩
  | append_singleton names name ih =>
    obtain ⟨kept, hkept⟩ := ih
    have hlast : ∀ (b : List Text) (ns : List Text) (n : Text),
        resolve b (ns ++ [n]) = enter (resolve b ns) n := fun b ns n => by
      rw [resolve_append]
      rfl
    by_cases hdots : IsDots name
    · by_cases hup : name = ['.', '.']
      · subst hup
        refine ⟨if resolve [] names = [] then kept.dropLast else kept, fun edit he => ?_⟩
        have henter : ∀ at_ : List Text, enter at_ ['.', '.'] = at_.dropLast := fun at_ => rfl
        rw [List.map_append, List.map_singleton, he.dots _ hdots, hlast, hlast, hkept edit he,
          henter, henter]
        split
        · next hnil => rw [hnil]; simp
        · next hne =>
          rw [List.dropLast_append_of_ne_nil (by simpa using hne), List.map_dropLast]
      · have henter : ∀ at_ : List Text, enter at_ name = at_ := by
          intro at_
          rcases hdots with h | h | h
          · exact if_pos (Or.inl h)
          · exact if_pos (Or.inr h)
          · exact absurd h hup
        refine ⟨kept, fun edit he => ?_⟩
        rw [List.map_append, List.map_singleton, he.dots _ hdots, hlast, hlast, hkept edit he,
          henter, henter]
    · refine ⟨kept, fun edit he => ?_⟩
      rw [List.map_append, List.map_singleton, hlast, hlast, hkept edit he,
        enter_of_name hdots, enter_of_name (he.names _ hdots), List.map_append,
        List.map_singleton, List.append_assoc]

/-- A text that stands for a version: it reaches over no slash and is not made of dots. -/
structure IsVersion (w : Text) : Prop where
  slash : '/' ∉ w
  dots : ∃ c ∈ w, c ≠ '.'

theorem IsVersion.ne_nil {w : Text} (h : IsVersion w) : w ≠ [] := by
  rintro rfl
  obtain ⟨c, hc, -⟩ := h.dots
  exact absurd hc List.not_mem_nil

theorem IsVersion.notInfix {w name : Text} (h : IsVersion w) (hname : IsDots name) :
    ¬ w <:+: name := by
  intro hi
  obtain ⟨c, hc, hne⟩ := h.dots
  have hmem := hi.subset hc
  rcases hname with rfl | rfl | rfl
  · exact absurd hmem List.not_mem_nil
  · exact hne (List.mem_singleton.mp hmem)
  · simp only [List.mem_cons, List.not_mem_nil, or_false, or_self] at hmem
    exact hne hmem

theorem keepsDots_replace (hold : IsVersion old) (hnew : IsVersion new) :
    KeepsDots (replace old new) where
  dots := fun name hname => replace_eq_self hold.ne_nil (hold.notInfix hname)
  names := by
    intro name hname hdots
    by_cases hi : old <:+: name
    · exact hnew.notInfix hdots (infix_replace hold.ne_nil hi)
    · rw [replace_eq_self hold.ne_nil hi] at hdots
      exact hname hdots

theorem start_replace (hold : IsVersion old) (hnew : IsVersion new) (cwd : List Text) (p : Text) :
    start cwd (replace old new p) = start cwd p := by
  rw [start, start, replace_of_ne hold.ne_nil]
  rcases replaceFrom_cases old p with rfl | ⟨rest, rfl⟩ | ⟨c, cs, rfl, hnot⟩
  · rfl
  · have hhead : ∀ {w : Text}, IsVersion w → ∀ b : Text, (w ++ b).head? ≠ some '/' := by
      intro w hw b
      rw [List.head?_append_of_ne_nil _ hw.ne_nil]
      exact fun h => hw.slash (List.mem_of_mem_head? h)
    rw [replaceFrom_old hold.ne_nil, if_neg (hhead hnew _), if_neg (hhead hold _)]
  · rw [replaceFrom_cons hnot, List.head?_cons, List.head?_cons]

/-- For every version the same names are left behind the same base. -/
theorem exists_directory_replace (hold : IsVersion old) (cwd : List Text) (p : Text) :
    ∃ kept, ∀ w, IsVersion w →
      directory cwd (replace old w p) = kept ++ (directory [] p).map (replace old w) := by
  obtain ⟨kept, hkept⟩ := resolve_map (start cwd p) (p.splitOn '/')
  have hstart : start [] p = [] := by
    rw [start]
    exact ite_self _
  refine ⟨kept, fun w hw => ?_⟩
  rw [directory, splitOn_replace hold.ne_nil hold.slash hw.slash, start_replace hold hw,
    hkept _ (keepsDots_replace hold hw), directory, hstart]

/-- Two versions make one directory of a path exactly when they are one or the path does not
name the version they replace. -/
theorem directory_replace_iff (hold : IsVersion old) (hnew : IsVersion new)
    (hnew' : IsVersion new') (cwd : List Text) (p : Text) :
    directory cwd (replace old new p) <+: directory cwd (replace old new' p) ↔
      ¬ (new ≠ new' ∧ ∃ name ∈ directory [] p, old <:+: name) := by
  obtain ⟨kept, hdirectory⟩ := exists_directory_replace hold cwd p
  rw [hdirectory new hnew, hdirectory new' hnew', List.prefix_append_right_inj]
  constructor
  · rintro hprefix ⟨hne, name, hname, hi⟩
    have heq := hprefix.eq_of_length (by rw [List.length_map, List.length_map])
    exact hne (replace_inj hold.ne_nil hi (List.map_inj_left.mp heq name hname))
  · intro hnot
    have hsame : (directory [] p).map (replace old new) =
        (directory [] p).map (replace old new') := by
      refine List.map_congr_left fun name hname => ?_
      by_cases hi : old <:+: name
      · rw [not_not.mp fun hne => hnot ⟨hne, name, hname, hi⟩]
      · rw [replace_eq_self hold.ne_nil hi, replace_eq_self hold.ne_nil hi]
    exact ⟨[], by rw [hsame, List.append_nil]⟩

theorem length_directory_replace (hold : IsVersion old) (hnew : IsVersion new) (cwd : List Text)
    (p : Text) : (directory cwd (replace old new p)).length = (directory cwd p).length := by
  obtain ⟨kept, hdirectory⟩ := exists_directory_replace hold cwd p
  have hself := hdirectory old hold
  rw [replace_self hold.ne_nil] at hself
  rw [hdirectory new hnew, hself, List.length_append, List.length_append, List.length_map,
    List.length_map]

/-- A name without the version keeps its place. -/
theorem getElem?_directory_replace (hold : IsVersion old) (hnew : IsVersion new) {i : ℕ} {a : Text}
    (ha : (directory cwd p)[i]? = some a) (hnot : ¬ old <:+: a) :
    (directory cwd (replace old new p))[i]? = some a := by
  obtain ⟨kept, hdirectory⟩ := exists_directory_replace hold cwd p
  have hself := hdirectory old hold
  rw [replace_self hold.ne_nil] at hself
  rw [hself] at ha
  rw [hdirectory new hnew]
  by_cases hi : i < kept.length
  · rwa [List.getElem?_append_left hi] at ha ⊢
  · rw [List.getElem?_append_right (Nat.le_of_not_lt hi), List.getElem?_map,
      Option.map_eq_some_iff] at ha ⊢
    obtain ⟨name, hname, rfl⟩ := ha
    rw [replace_self hold.ne_nil] at hnot
    exact ⟨name, hname, by rw [replace_eq_self hold.ne_nil hnot, replace_self hold.ne_nil]⟩

/-- At one place the directories have different names, and neither has the text in it. -/
def Forked (cwd : List Text) (old p q : Text) : Prop :=
  ∃ (i : ℕ) (a b : Text), (directory cwd p)[i]? = some a ∧ (directory cwd q)[i]? = some b ∧
    a ≠ b ∧ ¬ old <:+: a ∧ ¬ old <:+: b

theorem Forked.symm (h : Forked cwd old p q) : Forked cwd old q p := by
  obtain ⟨i, a, b, ha, hb, hne, hna, hnb⟩ := h
  exact ⟨i, b, a, hb, ha, hne.symm, hnb, hna⟩

/-- Paths that part do so for all versions, and none of what is below the one is above the
other. -/
theorem Forked.not_below (h : Forked cwd old p q) (hold : IsVersion old) (hnew : IsVersion new)
    (hnew' : IsVersion new') (below : List Text) :
    ¬ directory cwd (replace old new p) ++ below <+: directory cwd (replace old new' q) := by
  obtain ⟨i, a, b, ha, hb, hne, hna, hnb⟩ := h
  have ha' := getElem?_directory_replace hold hnew ha hna
  have hb' := getElem?_directory_replace hold hnew' hb hnb
  rintro ⟨rest, hrest⟩
  have hi : i < (directory cwd (replace old new p)).length :=
    (List.getElem?_eq_some_iff.mp ha').1
  rw [← hrest, List.append_assoc, List.getElem?_append_left hi, ha'] at hb'
  exact hne (Option.some.inj hb')

/-! ## A closing slash -/

/-- The slash at the end of the text, or before a line end that closes it, is dropped. -/
def stripSlash (text : Text) : Text :=
  match text.reverse with
  | '/' :: cs => cs.reverse
  | '\n' :: '/' :: cs => cs.reverse ++ ['\n']
  | _ => text

theorem stripSlash_closing (p : Text) : stripSlash (p ++ ['/']) = p := by
  simp [stripSlash]

theorem stripSlash_eq_self (hslash : p.getLast? ≠ some '/') (hline : '\n' ∉ p) :
    stripSlash p = p := by
  unfold stripSlash
  split
  · next cs h =>
    rw [← List.head?_reverse, h] at hslash
    exact absurd rfl hslash
  · next cs h =>
    have hm : '\n' ∈ p.reverse := by
      rw [h]
      exact List.mem_cons_self
    exact absurd (List.mem_reverse.mp hm) hline
  · rfl

theorem directory_stripSlash (hline : '\n' ∉ p) (hne : stripSlash p ≠ []) (cwd : List Text) :
    directory cwd (stripSlash p) = directory cwd p := by
  by_cases hslash : p.getLast? = some '/'
  · obtain ⟨path, rfl⟩ := List.getLast?_eq_some_iff.mp hslash
    rw [stripSlash_closing] at hne ⊢
    rw [directory_closing hne]
  · rw [stripSlash_eq_self hslash hline]

/-- Only the root and the empty text have nothing left. -/
theorem directory_of_stripSlash_nil (hline : '\n' ∉ p) (hne : p ≠ []) (h : stripSlash p = [])
    (cwd : List Text) : directory cwd p = [] := by
  by_cases hslash : p.getLast? = some '/'
  · obtain ⟨path, rfl⟩ := List.getLast?_eq_some_iff.mp hslash
    rw [stripSlash_closing] at h
    rw [h]
    rfl
  · rw [stripSlash_eq_self hslash hline] at h
    exact absurd h hne

end DirectoryPaths
