import Mathlib.Data.List.Forall2

/-! # The text of `order by`

The clause is put together from the caller's text, which may hold any bytes. A field of the text
is only ever looked up: what is written comes from the map. -/
namespace ConsoleSortBy

abbrev Bytes := List UInt8

/-- The bytes of an ASCII text. -/
def ascii (s : String) : Bytes := s.toList.map fun c => UInt8.ofNat c.toNat

def comma : UInt8 := 44

def dash : UInt8 := 45

/-- A key that the map does not hold gives the empty string. -/
def tableField (convMap : List (Bytes × Bytes)) (key : Bytes) : Bytes :=
  (convMap.lookup key).getD []

/-- The loop body: `orderBy` is what has been written so far. -/
def addField (convMap : List (Bytes × Bytes)) (orderBy sortBy : Bytes) : Bytes :=
  match sortBy with
  | [] => orderBy
  | c :: rest =>
    let (order, sortBy) := if c = dash then (ascii "desc", rest) else (ascii "asc", c :: rest)
    let field := tableField convMap sortBy
    if field.length = 0 then orderBy
    else (if orderBy.length = 0 then orderBy else orderBy ++ [comma]) ++
      (field ++ ascii " " ++ order)

def orderByConverter (sortByFromApi : Option Bytes) (defaultField : Bytes)
    (convMap : List (Bytes × Bytes)) : Bytes :=
  let orderBy := match sortByFromApi with
    | none => []
    | some s => (s.splitOn comma).foldl (addField convMap) []
  if orderBy.length = 0 then defaultField else orderBy

/-! ## The maps -/

inductive Listing where
  | secrets
  | clusters
  | operations

def secretSortFields : List (String × String) :=
  [("name", "secret_name"), ("id", "secret_id"), ("type", "secret_type"),
    ("created_at", "created_at"), ("updated_at", "updated_at")]

def clusterSortFields : List (String × String) :=
  [("name", "cluster_name"), ("id", "cluster_id"), ("created_at", "created_at"),
    ("updated_at", "updated_at"), ("environment", "environment_id"), ("status", "cluster_status"),
    ("project", "project_id"), ("location", "cluster_location"), ("server_count", "server_count"),
    ("postgres_version", "postgres_version")]

def operationSortFields : List (String × String) :=
  [("cluster_name", "cluster"), ("type", "type"), ("status", "status"), ("id", "id"),
    ("started", "started"), ("finished", "finished"), ("cluster", "cluster"),
    ("environment", "environment")]

def toBytes (fields : List (String × String)) : List (Bytes × Bytes) :=
  fields.map fun f => (ascii f.1, ascii f.2)

def Listing.sortFields : Listing → List (Bytes × Bytes)
  | .secrets => toBytes secretSortFields
  | .clusters => toBytes clusterSortFields
  | .operations => toBytes operationSortFields

def Listing.defaultField : Listing → Bytes
  | .secrets => ascii "secret_id"
  | .clusters => ascii "cluster_id"
  | .operations => ascii "id desc"

/-! ## The clause -/

structure Item where
  column : Bytes
  descending : Bool

def Item.text (i : Item) : Bytes :=
  i.column ++ ascii " " ++ (if i.descending then ascii "desc" else ascii "asc")

def clause (items : List Item) : Bytes := List.intercalate [comma] (items.map Item.text)

def tokens (sortByFromApi : Option Bytes) : List Bytes :=
  sortByFromApi.elim [] fun s => s.splitOn comma

def prefixed (token : Bytes) : Bool := token.head? == some dash

def keyOf (token : Bytes) : Bytes := if prefixed token then token.tail else token

def recognised (convMap : List (Bytes × Bytes)) (token : Bytes) : Bool :=
  (convMap.map Prod.fst).contains (keyOf token)

/-- One item a recognised field, in order, with the column of its key and the direction of its
prefix; the default when there is none. -/
def OrdersBy (convMap : List (Bytes × Bytes)) (defaultField : Bytes)
    (sortByFromApi : Option Bytes) (orderBy : Bytes) : Prop :=
  ∃ items : List Item,
    List.Forall₂ (fun token item => (keyOf token, item.column) ∈ convMap ∧
        item.descending = prefixed token)
      ((tokens sortByFromApi).filter (recognised convMap)) items ∧
    orderBy = if items = [] then defaultField else clause items

/-! ## The loop -/

/-- What a field adds to the clause. -/
def itemOf (convMap : List (Bytes × Bytes)) (token : Bytes) : Option Item :=
  (convMap.lookup (keyOf token)).map fun column => ⟨column, prefixed token⟩

/-- Maps without an empty key or column. -/
structure Filled (convMap : List (Bytes × Bytes)) : Prop where
  keys : [] ∉ convMap.map Prod.fst
  columns : [] ∉ convMap.map Prod.snd

variable {convMap : List (Bytes × Bytes)} {items : List Item} {token key column : Bytes}

theorem mem_of_lookup (h : convMap.lookup key = some column) : (key, column) ∈ convMap := by
  obtain ⟨a, b, hab, -⟩ := List.lookup_eq_some_iff.mp h
  simp [hab]

theorem lookup_isSome : (convMap.lookup key).isSome = (convMap.map Prod.fst).contains key := by
  induction convMap with
  | nil => rfl
  | cons p convMap ih =>
    obtain ⟨k, v⟩ := p
    rw [List.lookup_cons, List.map_cons, List.contains_cons]
    by_cases hk : key == k
    · simp [hk]
    · simp [hk, ih]

theorem text_ne_nil (i : Item) : i.text ≠ [] := by
  simp [Item.text, ascii]

theorem clause_eq_nil : clause items = [] ↔ items = [] := by
  constructor
  · intro h
    cases items with
    | nil => rfl
    | cons i items =>
      cases items with
      | nil => exact absurd (by simpa [clause] using h) (text_ne_nil i)
      | cons j items => simp [clause, List.intercalate] at h
  · rintro rfl
    rfl

theorem intercalate_append {α : Type} (sep : List α) {xs : List (List α)} (hxs : xs ≠ [])
    (y : List α) : List.intercalate sep (xs ++ [y]) = List.intercalate sep xs ++ (sep ++ y) := by
  induction xs with
  | nil => exact absurd rfl hxs
  | cons x xs ih =>
    cases xs with
    | nil => simp [List.intercalate]
    | cons x' xs =>
      have h := ih (List.cons_ne_nil x' xs)
      rw [List.cons_append] at h
      rw [List.cons_append, List.cons_append, List.intercalate_cons_cons, h,
        List.intercalate_cons_cons]
      simp only [List.append_assoc]

theorem clause_append (items : List Item) (i : Item) : clause (items ++ [i]) =
    (if (clause items).length = 0 then clause items else clause items ++ [comma]) ++ i.text := by
  by_cases h : items = []
  · subst h
    simp [clause, List.intercalate]
  · rw [if_neg fun hlength => h (clause_eq_nil.mp (List.length_eq_zero_iff.mp hlength))]
    rw [clause, List.map_append, List.map_singleton,
      intercalate_append _ (by simpa using h), ← clause, List.append_assoc]

/-- A field is looked up under its key, and what it adds carries its prefix. -/
theorem addField_eq (h : Filled convMap) (orderBy token : Bytes) :
    addField convMap orderBy token = match itemOf convMap token with
      | none => orderBy
      | some i => (if orderBy.length = 0 then orderBy else orderBy ++ [comma]) ++ i.text := by
  have hnone : convMap.lookup [] = none := by
    rw [← Option.not_isSome_iff_eq_none, lookup_isSome, List.contains_iff_mem]
    exact h.keys
  have hlookup : ∀ key order, (let field := tableField convMap key
      if field.length = 0 then orderBy
      else (if orderBy.length = 0 then orderBy else orderBy ++ [comma]) ++
        (field ++ ascii " " ++ order)) = match convMap.lookup key with
          | none => orderBy
          | some column => (if orderBy.length = 0 then orderBy else orderBy ++ [comma]) ++
            (column ++ ascii " " ++ order) := by
    intro key order
    cases hc : convMap.lookup key with
    | none => simp [tableField, hc]
    | some column =>
      have hne : column ≠ [] := by
        rintro rfl
        exact h.columns (List.mem_map_of_mem (mem_of_lookup hc))
      simp [tableField, hc, hne]
  cases token with
  | nil => simp [addField, itemOf, keyOf, prefixed, hnone]
  | cons c rest =>
    rw [addField]
    by_cases hc : c = dash
    · simp only [hc, if_true, itemOf, keyOf, prefixed, List.head?_cons, beq_self_eq_true,
        List.tail_cons]
      rw [hlookup]
      cases convMap.lookup rest <;> simp [Item.text]
    · have hbeq : (some c == some dash) = false := by simpa using hc
      simp only [hc, if_false, itemOf, keyOf, prefixed, List.head?_cons, hbeq,
        Bool.false_eq_true]
      rw [hlookup]
      cases convMap.lookup (c :: rest) <;> simp [Item.text]

/-- The loop writes the items of the fields one after the other. -/
theorem foldl_addField (h : Filled convMap) (ts : List Bytes) (items : List Item) :
    ts.foldl (addField convMap) (clause items) =
      clause (items ++ ts.filterMap (itemOf convMap)) := by
  induction ts generalizing items with
  | nil => simp
  | cons t ts ih =>
    rw [List.foldl_cons, addField_eq h, List.filterMap_cons]
    cases hi : itemOf convMap t with
    | none => exact ih items
    | some i =>
      simp only
      rw [← clause_append, ih, List.append_assoc, List.singleton_append]

/-- The items of the recognised fields. -/
theorem forall₂_itemOf (ts : List Bytes) :
    List.Forall₂ (fun token item => (keyOf token, item.column) ∈ convMap ∧
        item.descending = prefixed token)
      (ts.filter (recognised convMap)) (ts.filterMap (itemOf convMap)) := by
  induction ts with
  | nil => exact List.Forall₂.nil
  | cons t ts ih =>
    rw [List.filter_cons, List.filterMap_cons, recognised, ← lookup_isSome]
    cases hc : convMap.lookup (keyOf t) with
    | none =>
      simp only [itemOf, hc, Option.isSome_none, Option.map_none, Bool.false_eq_true, if_false]
      exact ih
    | some column =>
      simp only [itemOf, hc, Option.isSome_some, Option.map_some, if_true]
      exact List.Forall₂.cons ⟨mem_of_lookup hc, rfl⟩ ih

theorem ordersBy_of_filled (h : Filled convMap) (defaultField : Bytes)
    (sortByFromApi : Option Bytes) : OrdersBy convMap defaultField sortByFromApi
      (orderByConverter sortByFromApi defaultField convMap) := by
  refine ⟨(tokens sortByFromApi).filterMap (itemOf convMap), forall₂_itemOf _, ?_⟩
  have hloop : (match sortByFromApi with
      | none => []
      | some s => (s.splitOn comma).foldl (addField convMap) []) =
      clause ((tokens sortByFromApi).filterMap (itemOf convMap)) := by
    cases sortByFromApi with
    | none => rfl
    | some s => exact foldl_addField h (s.splitOn comma) []
  simp only [orderByConverter, hloop, List.length_eq_zero_iff, clause_eq_nil]

/-- Whatever text the caller sends, only columns of the map and directions are written. -/
theorem orderByConverter_orders (listing : Listing) (sortByFromApi : Option Bytes) :
    OrdersBy listing.sortFields listing.defaultField sortByFromApi
      (orderByConverter sortByFromApi listing.defaultField listing.sortFields) := by
  have hfilled : Filled listing.sortFields := by
    cases listing <;> exact ⟨by decide, by decide⟩
  exact ordersBy_of_filled hfilled listing.defaultField sortByFromApi

end ConsoleSortBy
