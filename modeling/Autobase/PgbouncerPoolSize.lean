import Autobase.TemplateValues
import Mathlib.Data.List.Dedup
import Mathlib.Algebra.BigOperators.Group.List.Basic
import Mathlib.Algebra.Order.Ring.Int
import Mathlib.Tactic.Ring

/-! # The pool budget of PgBouncer

The pre-checks add up the sizes of the pools, the default size for every database without a pool,
and fail when the total for all processes is more than max_connections. A pool's parameters are a
mapping or a text; in a text the size is looked for with a regular expression, whose whole match
is then converted to a number. -/
namespace PgbouncerPoolSize

open TemplateValues

attribute [local instance] lawfulBEq_text

/-! ## Variables -/

/-- A mapping has a value for pool_size or not. -/
inductive PoolParameters where
  | string (t : Text)
  | mapping (poolSize : Option Value)

structure Pool where
  name : Text
  dbname : Text
  poolParameters : PoolParameters

structure Parameter where
  option : Text
  value : Option Value

structure Variables where
  postgresqlParameters : List Parameter
  pgbouncerPools : List Pool
  postgresqlDatabases : List Text
  pgbouncerDefaultPoolSize : Option ℤ
  pgbouncerProcesses : Option ℤ

/-- The classes of a regular expression and the filter for texts. -/
structure Filters where
  digit : Char → Bool
  space : Char → Bool
  int : Text → ℤ

/-! ## Filters -/

namespace Filters

variable (f : Filters)

/-- What `\s*=?\s*(\d+)` matches at the beginning of a text. -/
def valueMatch (t : Text) : Option Text :=
  let blanks := t.takeWhile f.space
  let afterBlanks := t.dropWhile f.space
  let equals := if afterBlanks.head? = some '=' then ['='] else []
  let afterEquals := afterBlanks.drop equals.length
  let digits := (afterEquals.dropWhile f.space).takeWhile f.digit
  if digits = [] then none
  else some (blanks ++ equals ++ afterEquals.takeWhile f.space ++ digits)

/-- The same for `pool_size\s*=?\s*(\d+)`. -/
def poolSizeMatch (t : Text) : Option Text :=
  if "pool_size".toList.isPrefixOf t then
    (f.valueMatch (t.drop "pool_size".length)).map fun value => "pool_size".toList ++ value
  else none

def regexSearch (t : Text) : Option Text := t.tails.findSome? f.poolSizeMatch

end Filters

/-! ## Tasks -/

namespace Variables

variable (f : Filters) (c : Variables)

def defaultPoolSize : ℤ := c.pgbouncerDefaultPoolSize.getD 0

def processes : ℤ := c.pgbouncerProcesses.getD 1

/-- Set max_connections from vars or use default. -/
def maxConnectionsFact : Option ℤ :=
  c.postgresqlParameters.foldl (fun fact item =>
    if item.option = "max_connections".toList then some (toInt f.int (item.value.getD (.number 100)))
    else fact) none

def maxConnections : ℤ := (c.maxConnectionsFact f).getD 100

def counted (pool : Pool) : ℤ :=
  toInt f.int <| defaultTrue c.defaultPoolSize <|
    match pool.poolParameters with
    | .mapping poolSize => poolSize
    | .string t => (f.regexSearch t).map .text

/-- Calculate pool_size. -/
def poolSizeFact : Option ℤ :=
  c.pgbouncerPools.foldl (fun fact pool => some (fact.getD 0 + c.counted f pool)) none

def unpooled : List Text :=
  c.postgresqlDatabases.filter fun db => db ∉ c.pgbouncerPools.map Pool.dbname

/-- Calculate total pool_size. -/
def totalPoolSizeFact : Option ℤ :=
  (c.poolSizeFact f).map fun poolSize =>
    (poolSize + c.unpooled.length * c.defaultPoolSize) * c.processes

def fails : Prop :=
  c.pgbouncerPools ≠ [] ∧ c.maxConnections f < (c.totalPoolSizeFact f).getD 0

instance : Decidable (c.fails f) := inferInstanceAs (Decidable (_ ∧ _))

/-! ## The true total -/

/-- The size of a pool, where the service finds `configured` in a text of parameters. -/
def trueSize (configured : Text → Option ℤ) (pool : Pool) : ℤ :=
  match pool.poolParameters with
  | .string t => (configured t).getD c.defaultPoolSize
  | .mapping (some (.number n)) => n
  | .mapping (some (.text t)) => if t = [] then c.defaultPoolSize else f.int t
  | .mapping none => c.defaultPoolSize

def trueTotal (configured : Text → Option ℤ) : ℤ :=
  ((c.pgbouncerPools.map (c.trueSize f configured)).sum +
    c.unpooled.dedup.length * c.defaultPoolSize) * c.processes

/-! ## What is missed and what is invented -/

/-- The size in a text is not counted when the text names one, and otherwise it is taken for the
default. -/
def forgotten (configured : Text → Option ℤ) (pool : Pool) : ℤ :=
  match pool.poolParameters with
  | .string t =>
    c.trueSize f configured pool - if (f.regexSearch t).isSome then 0 else c.defaultPoolSize
  | .mapping _ => 0

/-- The default is counted for the size 0. -/
def invented (pool : Pool) : ℤ :=
  match pool.poolParameters with
  | .mapping (some (.number 0)) => c.defaultPoolSize
  | _ => 0

/-- The default is counted again for every repeated database. -/
def repeated : ℤ := (c.unpooled.length - c.unpooled.dedup.length : ℤ) * c.defaultPoolSize

def missed (configured : Text → Option ℤ) : ℤ :=
  (c.pgbouncerPools.map (c.forgotten f configured)).sum * c.processes

def surplus : ℤ := ((c.pgbouncerPools.map c.invented).sum + c.repeated) * c.processes

/-- The same pools under another limit. -/
def withMaxConnections (n : ℤ) : Variables :=
  { c with postgresqlParameters := [⟨"max_connections".toList, some (.number n)⟩] }

variable {f c} {configured : Text → Option ℤ}

/-! ## The sum over the pools -/

theorem foldl_getD_add (g : Pool → ℤ) (pools : List Pool) (fact : Option ℤ) (h : pools ≠ []) :
    pools.foldl (fun fact pool => some (fact.getD 0 + g pool)) fact =
      some (fact.getD 0 + (pools.map g).sum) := by
  induction pools generalizing fact with
  | nil => exact absurd rfl h
  | cons pool pools ih =>
    rw [List.foldl_cons, List.map_cons, List.sum_cons]
    by_cases hnil : pools = []
    · subst hnil
      simp
    · rw [ih _ hnil, Option.getD_some, add_assoc]

theorem totalPoolSizeFact_eq (h : c.pgbouncerPools ≠ []) : c.totalPoolSizeFact f =
    some (((c.pgbouncerPools.map (c.counted f)).sum + c.unpooled.length * c.defaultPoolSize) *
      c.processes) := by
  rw [totalPoolSizeFact, poolSizeFact, foldl_getD_add _ _ _ h, Option.getD_none, zero_add,
    Option.map_some]

/-! ## One pool -/

theorem poolSizeMatch_head {t m : Text} (h : f.poolSizeMatch t = some m) : m.head? = some 'p' := by
  rw [Filters.poolSizeMatch] at h
  split at h
  · obtain ⟨value, -, rfl⟩ := Option.map_eq_some_iff.mp h
    rfl
  · cases h

theorem regexSearch_head {t m : Text} (h : f.regexSearch t = some m) : m.head? = some 'p' := by
  obtain ⟨s, -, hs⟩ := List.exists_of_findSome?_eq_some h
  exact poolSizeMatch_head hs

theorem counted_string (hint : ∀ t : Text, t.head? = some 'p' → f.int t = 0) {pool : Pool} {t : Text}
    (h : pool.poolParameters = .string t) :
    c.counted f pool = if (f.regexSearch t).isSome then 0 else c.defaultPoolSize := by
  have hcounted : c.counted f pool =
      toInt f.int (defaultTrue c.defaultPoolSize ((f.regexSearch t).map .text)) := by
    rw [counted, h]
  rw [hcounted]
  cases hsearch : f.regexSearch t with
  | none => simp [defaultTrue, toInt]
  | some m =>
    have hhead := regexSearch_head hsearch
    have hne : m ≠ [] := by
      rintro rfl
      cases hhead
    simp [defaultTrue, falsy, toInt, hne, hint m hhead]

theorem counted_eq (hint : ∀ t : Text, t.head? = some 'p' → f.int t = 0) (pool : Pool) :
    c.counted f pool =
      c.trueSize f configured pool - c.forgotten f configured pool + c.invented pool := by
  cases h : pool.poolParameters with
  | string t =>
    rw [counted_string hint h]
    simp only [forgotten, invented, h]
    omega
  | mapping poolSize =>
    simp only [counted, trueSize, forgotten, invented, h]
    cases poolSize with
    | none => simp [defaultTrue, toInt]
    | some v =>
      cases v with
      | number n =>
        by_cases hn : n = 0
        · subst hn
          simp [defaultTrue, falsy, toInt]
        · simp [defaultTrue, falsy, toInt, hn]
      | text t =>
        by_cases ht : t = []
        · subst ht
          simp [defaultTrue, falsy, toInt]
        · simp [defaultTrue, falsy, toInt, ht]

/-- The total of the pre-check is the true one, without what it misses and with what it has too
much. -/
theorem totalPoolSizeFact_true (hint : ∀ t : Text, t.head? = some 'p' → f.int t = 0)
    (h : c.pgbouncerPools ≠ []) : c.totalPoolSizeFact f =
      some (c.trueTotal f configured - c.missed f configured + c.surplus) := by
  have hsum : (c.pgbouncerPools.map (c.counted f)).sum =
      (c.pgbouncerPools.map (c.trueSize f configured)).sum -
        (c.pgbouncerPools.map (c.forgotten f configured)).sum +
        (c.pgbouncerPools.map c.invented).sum := by
    rw [List.map_congr_left fun pool _ => counted_eq hint pool]
    induction c.pgbouncerPools with
    | nil => rfl
    | cons pool pools ih =>
      simp only [List.map_cons, List.sum_cons, ih]
      ring
  rw [totalPoolSizeFact_eq h, hsum, trueTotal, missed, surplus, repeated]
  congr 1
  ring

/-! ## The pre-check -/

theorem fails_iff (hint : ∀ t : Text, t.head? = some 'p' → f.int t = 0)
    (h : c.pgbouncerPools ≠ []) :
    c.fails f ↔
      c.maxConnections f + c.missed f configured < c.trueTotal f configured + c.surplus := by
  have htotal : c.totalPoolSizeFact f =
      some (c.trueTotal f configured - c.missed f configured + c.surplus) :=
    totalPoolSizeFact_true hint h
  rw [fails, and_iff_right h, htotal, Option.getD_some]
  omega

theorem maxConnections_withMaxConnections (n : ℤ) :
    (c.withMaxConnections n).maxConnections f = n := by
  have hsame : (⟨"max_connections".toList, some (.number n)⟩ : Parameter).option =
      "max_connections".toList := rfl
  rw [maxConnections, maxConnectionsFact, withMaxConnections, List.foldl_cons, List.foldl_nil,
    if_pos hsame, Option.getD_some]
  rfl

/-- The pre-check is exact when what it misses and what it has too much do not take the total to
the other side of max_connections. It is exact for every limit only if they are equal. -/
theorem fails_iff_true_total (hint : ∀ t : Text, t.head? = some 'p' → f.int t = 0)
    (h : c.pgbouncerPools ≠ []) :
    ((c.fails f ↔ c.maxConnections f < c.trueTotal f configured) ↔
      (c.maxConnections f + c.missed f configured < c.trueTotal f configured + c.surplus ↔
        c.maxConnections f < c.trueTotal f configured)) ∧
    ((∀ n, (c.withMaxConnections n).fails f ↔ n < c.trueTotal f configured) ↔
      c.missed f configured = c.surplus) := by
  refine ⟨iff_congr (fails_iff hint h) Iff.rfl, ?_⟩
  have hlimit : ∀ n, (c.withMaxConnections n).fails f ↔
      n + c.missed f configured < c.trueTotal f configured + c.surplus := by
    intro n
    have hn : (c.withMaxConnections n).fails f ↔
        (c.withMaxConnections n).maxConnections f + c.missed f configured <
          c.trueTotal f configured + c.surplus := fails_iff hint h
    rwa [maxConnections_withMaxConnections] at hn
  simp only [hlimit]
  constructor
  · -- the limits on either side of the true total
    intro hall
    have hbelow := hall (c.trueTotal f configured - 1)
    have hat := hall (c.trueTotal f configured)
    omega
  · intro heq n
    omega

/-- With mappings alone, no size 0 and no database twice it is always exact. -/
theorem fails_of_mappings (hint : ∀ t : Text, t.head? = some 'p' → f.int t = 0)
    (h : c.pgbouncerPools ≠ [])
    (hmapping : ∀ pool ∈ c.pgbouncerPools, ∃ v, pool.poolParameters = .mapping v ∧
      v ≠ some (.number 0)) (hnodup : c.postgresqlDatabases.Nodup) :
    c.fails f ↔ c.maxConnections f < c.trueTotal f configured := by
  have hforgotten : ∀ pool ∈ c.pgbouncerPools, c.forgotten f configured pool = 0 := by
    intro pool hpool
    obtain ⟨v, hv, -⟩ := hmapping pool hpool
    rw [forgotten, hv]
  have hinvented : ∀ pool ∈ c.pgbouncerPools, c.invented pool = 0 := by
    intro pool hpool
    obtain ⟨v, hv, hne⟩ := hmapping pool hpool
    rw [invented, hv]
    split
    · next heq =>
      cases heq
      exact absurd rfl hne
    · rfl
  have hmissed : c.missed f configured = 0 := by
    rw [missed, List.map_congr_left hforgotten]
    simp
  have hsurplus : c.surplus = 0 := by
    have hdedup : c.unpooled.dedup = c.unpooled := (hnodup.filter _).dedup
    rw [surplus, repeated, List.map_congr_left hinvented, hdedup]
    simp
  rw [fails_iff hint h, hmissed, hsurplus, add_zero, add_zero]

/-! ## Sizes in texts -/

def decimal (t : Text) : Option ℤ :=
  if t ≠ [] ∧ t.all Char.isDigit then some (t.foldl (fun n ch => 10 * n + (ch.toNat - 48)) 0)
  else none

def asciiFilters : Filters where
  digit := Char.isDigit
  space := fun ch => ch == ' '
  int := fun t => (decimal t).getD 0

theorem asciiFilters_int {t : Text} (h : t.head? = some 'p') : asciiFilters.int t = 0 := by
  have hnot : ¬ (t ≠ [] ∧ t.all Char.isDigit = true) := by
    rintro ⟨-, hall⟩
    exact absurd (List.all_eq_true.mp hall 'p' (List.mem_of_head? h)) (by decide)
  show (decimal t).getD 0 = 0
  rw [decimal, if_neg hnot]
  rfl

/-- Pairs of a key and a value between blanks. -/
def pairSize (t : Text) : Option ℤ :=
  ((t.splitOn ' ').filterMap fun pair =>
    if "pool_size=".toList.isPrefixOf pair then decimal (pair.drop "pool_size=".length)
    else none).getLast?

def twoPools (maxConnections : ℤ) : Variables where
  postgresqlParameters := [⟨"max_connections".toList, some (.number maxConnections)⟩]
  pgbouncerPools :=
    [⟨"db1".toList, "db1".toList, .string "pool_size=10".toList⟩,
      ⟨"db2".toList, "db2".toList, .string "pool_size=20 pool_mode=transaction".toList⟩]
  postgresqlDatabases := ["db1".toList, "db2".toList]
  pgbouncerDefaultPoolSize := some 100
  pgbouncerProcesses := some 1

theorem fails_iff_two_pools :
    (((twoPools 25).fails asciiFilters ↔
      (twoPools 25).maxConnections asciiFilters < (twoPools 25).trueTotal asciiFilters pairSize) ↔
    ((twoPools 25).maxConnections asciiFilters + (twoPools 25).missed asciiFilters pairSize <
        (twoPools 25).trueTotal asciiFilters pairSize + (twoPools 25).surplus ↔
      (twoPools 25).maxConnections asciiFilters <
        (twoPools 25).trueTotal asciiFilters pairSize)) ∧
    ((∀ n, ((twoPools 25).withMaxConnections n).fails asciiFilters ↔
      n < (twoPools 25).trueTotal asciiFilters pairSize) ↔
        (twoPools 25).missed asciiFilters pairSize = (twoPools 25).surplus) :=
  fails_iff_true_total (fun _ => asciiFilters_int) (List.cons_ne_nil _ _)

/-- The sizes count nothing, and 30 connections pass for a limit of 25. -/
theorem two_pools_pass :
    (twoPools 25).trueTotal asciiFilters pairSize = 30 ∧
      (twoPools 25).totalPoolSizeFact asciiFilters = some 0 ∧
      ¬ ((twoPools 25).fails asciiFilters ↔
        (twoPools 25).maxConnections asciiFilters <
          (twoPools 25).trueTotal asciiFilters pairSize) := by
  decide +kernel

end Variables

end PgbouncerPoolSize
