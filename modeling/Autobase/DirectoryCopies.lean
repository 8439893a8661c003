import Autobase.DirectoryPaths
import Mathlib.Data.List.TakeWhile

/-! # Copies of directories

A copy has sources and one destination, which are paths from the root. A source that ends in a
name is copied into the destination under that name, and of any other source the contents are.
What is below a source keeps its place below it. -/
namespace DirectoryCopies

open DirectoryPaths

/-! ## The last component -/

def basename (path : Text) : Text := (path.reverse.takeWhile fun c => c != '/').reverse

/-- The text up to the last slash. -/
def upToSlash (path : Text) : Text := (path.reverse.dropWhile fun c => c != '/').reverse

/-- The slashes at the end are dropped, unless there is nothing else. -/
def dirname (path : Text) : Text :=
  if (upToSlash path).all fun c => c == '/' then upToSlash path
  else ((upToSlash path).reverse.dropWhile fun c => c == '/').reverse

/-- The name that is neither missing nor a dot or two. -/
def IsName (name : Text) : Prop := name ≠ [] ∧ name ≠ ['.'] ∧ name ≠ ['.', '.']

instance (name : Text) : Decidable (IsName name) := inferInstanceAs (Decidable (_ ∧ _ ∧ _))

/-- The directory of a path from the root. -/
abbrev place (path : Text) : List Text := directory [] path

variable {path name p q : Text}

theorem upToSlash_append_basename (path : Text) : upToSlash path ++ basename path = path := by
  rw [upToSlash, basename, ← List.reverse_append, List.takeWhile_append_dropWhile,
    List.reverse_reverse]

theorem slash_notMem_basename (path : Text) : '/' ∉ basename path := by
  intro h
  have hne := List.mem_takeWhile_imp (List.mem_reverse.mp h)
  exact absurd hne (by decide)

theorem basename_slash (p : Text) (h : '/' ∉ name) : basename (p ++ '/' :: name) = name := by
  have hall : ∀ c ∈ name.reverse, (c != '/') = true := by
    intro c hc
    refine bne_iff_ne.mpr ?_
    rintro rfl
    exact h (List.mem_reverse.mp hc)
  have hreverse : (p ++ '/' :: name).reverse = name.reverse ++ '/' :: p.reverse := by simp
  rw [basename, hreverse, List.takeWhile_append_of_pos hall]
  simp

theorem place_slash (p q : Text) : place (p ++ '/' :: q) = resolve (place p) (q.splitOn '/') := by
  have hstart : ∀ r : Text, start [] r = [] := fun r => ite_self []
  rw [place, directory, hstart, List.splitOn_append_cons_self, resolve_append, place, directory,
    hstart]

theorem resolve_slashes (at_ : List Text) (k : ℕ) (h : '/' ∉ name) :
    resolve at_ ((List.replicate k '/' ++ name).splitOn '/') = enter at_ name := by
  induction k with
  | zero =>
    rw [List.replicate_zero, List.nil_append, List.splitOn_eq_singleton h]
    rfl
  | succ k ih =>
    rw [List.replicate_succ, List.cons_append, ← List.nil_append ('/' :: _),
      List.splitOn_append_cons_self, resolve_append, List.splitOn_nil]
    exact ih

theorem upToSlash_ne_nil (h : '/' ∈ path) : ∃ t, (upToSlash path).reverse = '/' :: t := by
  have hne : path.reverse.dropWhile (fun c => c != '/') ≠ [] := by
    rw [ne_eq, List.dropWhile_eq_nil_iff]
    intro hall
    exact absurd (hall '/' (List.mem_reverse.mpr h)) (by decide)
  have hhead := List.head_dropWhile_not (fun c => c != '/') hne
  obtain ⟨c, t, hct⟩ := List.exists_cons_of_ne_nil hne
  refine ⟨t, ?_⟩
  rw [upToSlash, List.reverse_reverse, hct]
  simp only [hct, List.head_cons, bne_eq_false_iff_eq] at hhead
  rw [hhead]

/-- What is left of the text without its slashes is the same directory. -/
theorem upToSlash_eq (h : '/' ∈ path) : ∃ q k,
    upToSlash path = q ++ '/' :: List.replicate k '/' ∧ place (dirname path) = place q := by
  obtain ⟨t, ht⟩ := upToSlash_ne_nil h
  have hslashes : ∀ c ∈ t.takeWhile (fun c => c == '/'), c = '/' := by
    intro c hc
    have heq := List.mem_takeWhile_imp hc
    exact beq_iff_eq.mp heq
  have hsplit : upToSlash path = (t.dropWhile fun c => c == '/').reverse ++
      '/' :: List.replicate (t.takeWhile fun c => c == '/').length '/' := by
    rw [← List.reverse_reverse (upToSlash path), ht, List.reverse_cons]
    conv_lhs => rw [← List.takeWhile_append_dropWhile (p := fun c => c == '/') (l := t)]
    rw [List.reverse_append, List.eq_replicate_of_mem hslashes, List.reverse_replicate,
      List.append_assoc, ← List.replicate_succ', List.replicate_succ, List.length_replicate]
  refine ⟨_, _, hsplit, ?_⟩
  rw [dirname]
  split
  · next hall =>
    have hnil : (t.dropWhile fun c => c == '/') = [] := by
      rw [List.dropWhile_eq_nil_iff]
      intro c hc
      refine List.all_eq_true.mp hall c (List.mem_reverse.mp ?_)
      rw [ht]
      exact List.mem_cons_of_mem _ hc
    rw [hsplit, hnil, List.reverse_nil, place_slash, ← List.append_nil (List.replicate _ '/'),
      resolve_slashes _ _ (by simp)]
    rfl
  · rw [ht, List.dropWhile_cons_of_pos (by decide)]

/-- Below a directory a path goes on with its last component. -/
theorem place_eq_enter (h : '/' ∈ path) :
    place path = enter (place (dirname path)) (basename path) := by
  obtain ⟨q, k, hslashes, hdirname⟩ := upToSlash_eq h
  conv_lhs => rw [← upToSlash_append_basename path, hslashes, List.append_assoc, List.cons_append,
    place_slash, resolve_slashes _ k (slash_notMem_basename path)]
  rw [hdirname]

theorem enter_name (at_ : List Text) (h : IsName name) : enter at_ name = at_ ++ [name] := by
  rw [enter, if_neg (not_or.mpr ⟨h.1, h.2.1⟩), if_neg h.2.2]

theorem place_child (p : Text) (hslash : '/' ∉ name) (h : IsName name) :
    place (p ++ '/' :: name) = place p ++ [name] := by
  rw [place_slash, List.splitOn_eq_singleton hslash]
  exact enter_name _ h

/-! ## Copies -/

/-- What a source adds to the destination. -/
def carried (source : Text) : List Text :=
  if IsName (basename source) then [basename source] else []

structure Copy where
  sources : List Text
  destination : Text

namespace Copy

variable (c : Copy)

/-- Where a source is copied to. -/
def lands (source : Text) : List Text := place c.destination ++ carried source

/-- A directory at the source is copied to a directory at the destination. -/
def Arrives (directory target : List Text) : Prop :=
  ∃ s ∈ c.sources, ∃ below, directory = place s ++ below ∧ target = c.lands s ++ below

/-- The directory is copied to its own place with all that is below it, and nothing else comes
there. -/
def Mirrors (target : List Text) : Prop :=
  ∀ below directory, c.Arrives directory (target ++ below) ↔ directory = target ++ below

def InPlace (source : Text) : Prop := place source = c.lands source

/-- The source is copied to the directory, above it or below it. -/
def Meets (source : Text) (target : List Text) : Prop :=
  c.lands source <+: target ∨ target <+: c.lands source

instance (source : Text) : Decidable (c.InPlace source) := inferInstanceAs (Decidable (_ = _))

instance (source : Text) (target : List Text) : Decidable (c.Meets source target) :=
  inferInstanceAs (Decidable (_ ∨ _))

variable {c} {target : List Text}

/-- A directory is mirrored when a source above it is copied in place and every source that comes
near it is. -/
theorem mirrors_iff : c.Mirrors target ↔
    (∃ s ∈ c.sources, c.InPlace s ∧ place s <+: target) ∧
      ∀ s ∈ c.sources, c.InPlace s ∨ ¬ c.Meets s target := by
  constructor
  · intro h
    refine ⟨?_, fun s hs => ?_⟩
    · obtain ⟨s, hs, below, hplace, hlands⟩ := (h [] target).mpr (List.append_nil target).symm
      rw [List.append_nil] at hlands
      exact ⟨s, hs, List.append_cancel_right (hplace.symm.trans hlands), ⟨below, hplace.symm⟩⟩
    · by_cases hmeets : c.Meets s target
      · refine Or.inl ?_
        rcases hmeets with ⟨below, hbelow⟩ | ⟨below, hbelow⟩
        · have harrives : c.Arrives (place s ++ below) (target ++ []) :=
            ⟨s, hs, below, rfl, by rw [List.append_nil, hbelow]⟩
          have heq := (h [] _).mp harrives
          rw [List.append_nil, ← hbelow] at heq
          exact List.append_cancel_right heq
        · have harrives : c.Arrives (place s) (target ++ below) :=
            ⟨s, hs, [], (List.append_nil _).symm, by rw [List.append_nil, hbelow]⟩
          exact ((h below _).mp harrives).trans hbelow
      · exact Or.inr hmeets
  · rintro ⟨⟨s, hs, hinplace, above, rfl⟩, hall⟩ below directory
    constructor
    · rintro ⟨r, hr, rest, rfl, htarget⟩
      have hmeets : c.Meets r (place s ++ above) :=
        (List.prefix_or_prefix_of_prefix ⟨rest, htarget.symm⟩ ⟨below, rfl⟩)
      have hr' : place r = c.lands r := (hall r hr).resolve_right (not_not_intro hmeets)
      rw [hr', htarget]
    · rintro rfl
      exact ⟨s, hs, above ++ below, by rw [List.append_assoc],
        by rw [← hinplace, List.append_assoc]⟩

/-- A directory in the destination is copied in place. -/
theorem inPlace_child (h : '/' ∉ name) (hname : IsName name) :
    c.InPlace (c.destination ++ '/' :: name) := by
  rw [InPlace, lands, carried, basename_slash _ h, if_pos hname, place_child _ h hname]

end Copy

end DirectoryCopies
