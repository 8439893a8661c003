import Autobase.YeditKeys
import Mathlib.Algebra.Order.Ring.Rat

/-! # The document editor

The class behind the module `yedit` reads and writes a loaded document under keys. A key that
finds nothing and one that finds null look alike. Setting a value works on a copy, which is
dropped when it fails; the other operations change the document in place. -/
namespace Yedit

open ObjectLiterals DocumentTrees DocumentPlaces YeditKeys

/-! ## Values -/

inductive Scalar where
  | none
  | bool (b : Bool)
  | int (n : ℤ)
  | float (q : ℚ)
  | str (s : String)
  deriving DecidableEq

/-- A boolean is a number too. -/
def Scalar.number : Scalar → Option ℚ
  | .bool b => some (if b then 1 else 0)
  | .int n => some n
  | .float q => some q
  | _ => Option.none

/-- The comparison `==` -/
def Scalar.same (a b : Scalar) : Bool :=
  match a.number, b.number with
  | some x, some y => decide (x = y)
  | Option.none, Option.none => decide (a = b)
  | _, _ => false

theorem Scalar.same_refl (a : Scalar) : a.same a = true := by
  cases a <;> simp [Scalar.same, Scalar.number]

theorem Scalar.same_trans (a b c : Scalar) (hab : a.same b = true) (hbc : b.same c = true) :
    a.same c = true := by
  simp only [Scalar.same] at hab hbc ⊢
  cases ha : a.number <;> cases hb : b.number <;> cases hc : c.number <;>
    simp only [ha, hb, hc, decide_eq_true_eq] at hab hbc ⊢ <;>
    first
      | exact hab.trans hbc
      | exact absurd hab Bool.false_ne_true
      | exact absurd hbc Bool.false_ne_true

abbrev Value := Doc Scalar

def null : Value := .scalar .none

def Scalar.truthy : Scalar → Bool
  | .none => false
  | .bool b => b
  | .int n => decide (n ≠ 0)
  | .float q => decide (q ≠ 0)
  | .str s => decide (s ≠ "")

def truthy : Value → Bool
  | .scalar a => a.truthy
  | .list xs => !xs.isEmpty
  | .dict m => !m.isEmpty

def falsy (d : Value) : Bool := !truthy d

/-- `isinstance(data, (list, dict))` -/
def isContainer : Value → Bool
  | .scalar _ => false
  | _ => true

abbrev equal (d e : Value) : Bool := d.eqv Scalar.same e

inductive Error where
  | yedit (message : String)
  | indexError
  | keyError
  | typeError
  | valueError
  | unboundLocal
  | yamlError
  deriving DecidableEq

abbrev Outcome := Except Error

/-! ## Entries -/

/-- The loop of `get_entry`. -/
def descend : List Step → Value → Outcome Value
  | [], d => .ok d
  | .key k :: p, .dict m => descend p ((m.lookup k).getD null)
  | .index i :: p, .list xs =>
    if i ≤ (xs.length : ℤ) - 1 then
      match child (.index i) (.list xs) with
      | some x => descend p x
      | none => .error .indexError
    else .ok null
  | _ :: _, _ => .ok null

def getEntry (data : Value) (key sep : String) : Outcome Value :=
  if key ≠ "" ∧ validKey key = false ∧ isContainer data = true then .ok null
  else descend (parseKey key sep) data

def unexpectedItem (key : String) : Error :=
  .yedit ("Unexpected item type found while going through key path: " ++ key)

def unexpectedItemAt (key step : String) : Error :=
  .yedit ("Unexpected item type found while going through key path: " ++ key ++
    " (at key: " ++ step ++ ")")

def errorAdding (key : String) : Error := .yedit ("Error adding to object at path: " ++ key)

/-- The loop of `add_entry` and its last index. -/
def addAt (key : String) (item : Value) : List Step → Value → Outcome Value
  | [], _ => .error .indexError
  | [.key k], .dict m => .ok (.dict (assign k item m))
  | [.index i], .list xs =>
    if i ≤ (xs.length : ℤ) then
      -- the index after the last one appends
      if (xs.length : ℤ) - 1 < i then .ok (.list (xs ++ [item]))
      else
        match position xs.length i with
        | some n => .ok (.list (xs.set n item))
        | none => .error .indexError
    else .error (errorAdding key)
  | [_], _ => .error (errorAdding key)
  | .key k :: p, .dict m =>
    -- an entry that is missing or falsy makes room for a mapping
    (addAt key item p (room falsy (m.lookup k))).map fun c => .dict (assign k c m)
  | .key k :: _, d => .error (if truthy d then unexpectedItemAt key k else .typeError)
  | .index i :: p, .list xs =>
    if i ≤ (xs.length : ℤ) - 1 then
      match position xs.length i with
      | some n =>
        match xs[n]? with
        | some x => (addAt key item p x).map fun c => .list (xs.set n c)
        | none => .error .indexError
      | none => .error .indexError
    else .error (unexpectedItem key)
  | .index _ :: _, _ => .error (unexpectedItem key)

/-- For the empty key the item itself is returned and the document left alone. Otherwise the
changed document is the result, or none for a key that is not valid. -/
def addEntry (data : Value) (key : String) (item : Value) (sep : String) :
    Outcome (Option Value) :=
  if key = "" then .ok (some item)
  else if validKey key = false ∧ isContainer data = true then .ok none
  else (addAt key item (parseKey key sep) data).map some

/-- Whether the document was changed, and the document. -/
abbrev Edited := Bool × Value

def put (sep path : String) (value d : Value) : Outcome Edited :=
  (getEntry d path sep).bind fun entry =>
    if equal entry value then .ok (false, d)
    else
      (addEntry d path value sep).map fun
        | none => (false, d)
        | some result =>
          if path = "" then if isContainer result then (true, result) else (false, d)
          else (true, result)

/-! ## What is found under a key -/

theorem map_eq_ok {ε α β : Type*} {f : α → β} {x : Except ε α} {b : β} :
    x.map f = .ok b ↔ ∃ a, x = .ok a ∧ f a = b := by
  cases x <;> simp [Except.map]

theorem bind_eq_ok {ε α β : Type*} {f : α → Except ε β} {x : Except ε α} {b : β} :
    x.bind f = .ok b ↔ ∃ a, x = .ok a ∧ f a = .ok b := by
  cases x <;> simp [Except.bind]

variable {sep path key : String} {p q : List Step} {d d' v value : Value} {s : Step}

theorem descend_null (q : List Step) : descend q null = .ok null := by
  cases q with
  | nil => rfl
  | cons s q => cases s <;> rfl

theorem descend_empty (s : Step) (q : List Step) : descend (s :: q) (.dict []) = .ok null := by
  cases s with
  | key k => exact descend_null q
  | index i => rfl

theorem hollow_falsy : Hollow falsy := by
  intro d s hd
  cases d with
  | scalar a => cases s <;> rfl
  | list xs =>
    cases xs with
    | nil =>
      cases s with
      | key k => rfl
      | index i =>
        rw [child, List.length_nil]
        cases position 0 i <;> rfl
    | cons x xs => cases hd
  | dict m =>
    cases m with
    | nil => exact child_empty s
    | cons a m => cases hd

theorem child_index_eq_none {xs : List Value} {i : ℤ} (hi : (xs.length : ℤ) ≤ i) :
    child (.index i) (.list xs) = none := by
  rw [child, position_of_ge (by omega) hi]
  rfl

/-- Null stands for a value and for none. -/
theorem descend_eq (h : descend p d = .ok v) : v = (read p d).getD null := by
  induction p generalizing d with
  | nil => exact (Except.ok.inj h).symm
  | cons s p ih =>
    rw [read_cons]
    cases s with
    | key k =>
      cases d with
      | dict m =>
        rw [child]
        have hrest := ih h
        cases hk : m.lookup k with
        | some c => rwa [hk] at hrest
        | none =>
          rw [descend, hk, Option.getD_none, descend_null] at h
          exact (Except.ok.inj h).symm
      | scalar a => exact (Except.ok.inj h).symm
      | list xs => exact (Except.ok.inj h).symm
    | index i =>
      cases d with
      | list xs =>
        rw [descend] at h
        split at h
        · cases hx : child (.index i) (.list xs) with
          | none => rw [hx] at h; cases h
          | some x =>
            rw [hx] at h
            exact ih h
        · next hi =>
          rw [child_index_eq_none (by omega)]
          exact (Except.ok.inj h).symm
      | scalar a => exact (Except.ok.inj h).symm
      | dict m => exact (Except.ok.inj h).symm

theorem descend_of_read (h : read p d = some v) : descend p d = .ok v := by
  induction p generalizing d with
  | nil => rw [descend, Option.some.inj h]
  | cons s p ih =>
    obtain ⟨c, hc, hrest⟩ := Option.bind_eq_some_iff.mp h
    cases s with
    | key k =>
      cases d with
      | dict m =>
        rw [child] at hc
        rw [descend, hc]
        exact ih hrest
      | scalar a => cases hc
      | list xs => cases hc
    | index i =>
      cases d with
      | list xs =>
        have hi : i ≤ (xs.length : ℤ) - 1 := by
          by_contra hlt
          rw [child_index_eq_none (by omega)] at hc
          cases hc
        rw [descend, if_pos hi, hc]
        exact ih hrest
      | scalar a => cases hc
      | dict m => cases hc

/-- A falsy entry holds nothing, so nothing is lost when a mapping takes its place. -/
theorem descend_room (hq : q ≠ []) {c : Option Value} (h : descend q (c.getD null) = .ok v) :
    descend q (room falsy c) = .ok v := by
  obtain ⟨t, q, rfl⟩ := List.exists_cons_of_ne_nil hq
  cases c with
  | none =>
    rw [Option.getD_none, descend_null] at h
    rw [room, descend_empty, h]
  | some c =>
    rw [room]
    split
    · next hc =>
      have hv := descend_eq h
      rw [Option.getD_some, read_cons, hollow_falsy c t hc] at hv
      rw [descend_empty, hv]
      rfl
    · exact h

/-- What is found under a key that parts from the written one is found there afterwards. -/
theorem descend_write_other (hw : write falsy p value d = some d') (hpq : Diverge p q)
    (h : descend q d = .ok v) : descend q d' = .ok v := by
  induction p generalizing d d' q with
  | nil => cases hpq
  | cons s p ih =>
    cases q with
    | nil => cases hpq
    | cons t q =>
      rcases write_cases hw with ⟨k, m, c, rfl, rfl, hc, rfl⟩ |
        ⟨i, xs, n, x, c, rfl, rfl, hn, hx, hc, rfl⟩ | ⟨xs, rfl, rfl, rfl, rfl⟩
      · cases t with
        | index j => exact h
        | key l =>
          rw [descend] at h ⊢
          rcases hpq with hst | ⟨he, hrest⟩
          · rwa [lookup_assign, if_neg (Ne.symm hst)]
          · obtain rfl := Step.key.inj he
            rw [lookup_assign, if_pos rfl]
            exact ih hc hrest (descend_room (diverge_ne_nil hrest) h)
      · cases t with
        | key l => exact h
        | index j =>
          rw [descend] at h ⊢
          rw [List.length_set]
          split at h
          · next hj =>
            rw [if_pos hj]
            rcases hpq with hst | ⟨he, hrest⟩
            · rwa [child_set_other hn hst]
            · obtain rfl := Step.index.inj he
              rw [child_list hn hx] at h
              rw [child_set_self hn]
              exact ih hc hrest h
          · next hj =>
            rw [if_neg hj]
            exact h
      · cases t with
        | key l => exact h
        | index j =>
          have hst := hpq.resolve_right fun hrest => hrest.2
          rw [descend] at h ⊢
          rw [List.length_append, List.length_singleton, child_append_other hst]
          obtain ⟨-, -, hne⟩ := hst
          by_cases hj : j ≤ (xs.length : ℤ) - 1
          · rw [if_pos hj] at h
            rwa [if_pos (by omega)]
          · rw [if_neg hj] at h
            rwa [if_neg (by omega)]

/-! ## Setting a value -/

/-- A value that could be set was written to the place. -/
theorem write_of_addAt (h : addAt key value p d = .ok d') : write falsy p value d = some d' := by
  fun_induction addAt key value p d generalizing d' with
  | case1 d => cases h
  | case2 k m => rw [write, Except.ok.inj h]
  | case3 i xs hle hlast =>
    have hi : i = xs.length := by omega
    rw [write, if_pos hi, Except.ok.inj h]
  | case4 i xs hle hlast n hn =>
    rw [write, if_neg (by omega), hn, Option.map_some, Except.ok.inj h]
  | case5 i xs hle hlast hn => cases h
  | case6 i xs hle => cases h
  | case7 s d => cases h
  | case8 k p m hp ih =>
    obtain ⟨c, hc, rfl⟩ := map_eq_ok.mp h
    rw [write, ih hc, Option.map_some]
    exact hp
  | case9 => cases h
  | case10 i p xs hp hle n hn x hx ih =>
    obtain ⟨c, hc, rfl⟩ := map_eq_ok.mp h
    rw [write, hn, Option.bind_some, hx, Option.bind_some, ih hc, Option.map_some]
    exact hp
  | case11 => cases h
  | case12 => cases h
  | case13 => cases h
  | case14 => cases h

theorem addAt_scalar {a : Scalar} : addAt key value p (.scalar a) ≠ .ok d' := by
  intro h
  have hw := write_of_addAt h
  cases p with
  | nil => cases h
  | cons s p => cases s <;> cases p <;> cases hw

/-- The three ways in which setting a value ends. -/
theorem put_cases {changed : Bool} (h : put sep path value d = .ok (changed, d')) :
    (changed = false ∧ d' = d) ∨
    ∃ entry, changed = true ∧ getEntry d path sep = .ok entry ∧ equal entry value = false ∧
      ((path = "" ∧ isContainer value = true ∧ d' = value) ∨
        (path ≠ "" ∧ validKey path = true ∧
          write falsy (parseKey path sep) value d = some d')) := by
  obtain ⟨entry, hentry, h⟩ := bind_eq_ok.mp h
  split at h
  · obtain ⟨rfl, rfl⟩ := Prod.mk.inj (Except.ok.inj h)
    exact Or.inl ⟨rfl, rfl⟩
  · next hne =>
    rw [Bool.not_eq_true] at hne
    obtain ⟨result, hresult, h⟩ := map_eq_ok.mp h
    cases result with
    | none =>
      obtain ⟨rfl, rfl⟩ := Prod.mk.inj h
      exact Or.inl ⟨rfl, rfl⟩
    | some r =>
      rw [addEntry] at hresult
      split at hresult
      · next hpath =>
        obtain rfl := Option.some.inj (Except.ok.inj hresult)
        simp only [if_pos hpath] at h
        split at h
        · next hcontainer =>
          obtain ⟨rfl, rfl⟩ := Prod.mk.inj h
          exact Or.inr ⟨entry, rfl, hentry, hne, Or.inl ⟨hpath, hcontainer, rfl⟩⟩
        · obtain ⟨rfl, rfl⟩ := Prod.mk.inj h
          exact Or.inl ⟨rfl, rfl⟩
      · next hpath =>
        simp only [if_neg hpath] at h
        obtain ⟨rfl, rfl⟩ := Prod.mk.inj h
        split at hresult
        · cases hresult
        · next hvalid =>
          obtain ⟨e, he, hr⟩ := map_eq_ok.mp hresult
          obtain rfl := Option.some.inj hr
          refine Or.inr ⟨entry, rfl, hentry, hne, Or.inr ⟨hpath, ?_, write_of_addAt he⟩⟩
          cases d with
          | scalar a => exact absurd he addAt_scalar
          | list xs => simpa [isContainer] using hvalid
          | dict m => simpa [isContainer] using hvalid

theorem parseKey_empty (sep : String) : parseKey "" sep = [] := rfl

theorem getEntry_empty (d : Value) (sep : String) : getEntry d "" sep = .ok d := rfl

theorem getEntry_valid (h : validKey path = true) (d : Value) (sep : String) :
    getEntry d path sep = descend (parseKey path sep) d := by
  rw [getEntry, if_neg (by simp [h])]

/-- Setting a value under a valid key. -/
theorem put_valid (hpath : path ≠ "") (hvalid : validKey path = true) :
    put sep path value d = (descend (parseKey path sep) d).bind fun entry =>
      if equal entry value then .ok (false, d)
      else (addAt path value (parseKey path sep) d).map fun d' => (true, d') := by
  rw [put, getEntry_valid hvalid, addEntry, if_neg hpath, if_neg (by simp [hvalid])]
  cases addAt path value (parseKey path sep) d <;> simp [Except.map, hpath]

/-- What was set is found. -/
theorem getEntry_put (h : put sep path value d = .ok (true, d')) :
    getEntry d' path sep = .ok value := by
  rcases put_cases h with ⟨hfalse, -⟩ | ⟨-, -, -, -, ⟨rfl, -, rfl⟩ | ⟨-, hvalid, hw⟩⟩
  · cases hfalse
  · rw [getEntry_empty]
  · rw [getEntry_valid hvalid]
    exact descend_of_read (read_write_self hw)

/-- A document that is said to have changed has changed. -/
theorem put_differs (h : put sep path value d = .ok (true, d')) : equal d d' = false := by
  rcases put_cases h with ⟨hfalse, -⟩ | ⟨entry, -, hentry, hne, hend⟩
  · cases hfalse
  · rw [← Bool.not_eq_true]
    intro hequal
    rcases hend with ⟨rfl, -, rfl⟩ | ⟨-, hvalid, hw⟩
    · rw [getEntry_empty] at hentry
      rw [Except.ok.inj hentry, hne] at hequal
      cases hequal
    · rw [getEntry_valid hvalid] at hentry
      have hrel := read_eqv hequal (parseKey path sep)
      rw [read_write_self hw] at hrel
      have hread := descend_eq hentry
      cases hold : read (parseKey path sep) d with
      | none => rw [hold] at hrel; cases hrel
      | some old =>
        rw [hold, Option.getD_some] at hread
        rw [hold] at hrel
        cases hrel with
        | some hsame =>
          rw [← hread] at hsame
          exact Bool.false_ne_true (hne.symm.trans hsame)

/-- The keys name places that part. -/
def Apart (sep path key : String) : Prop := Diverge (parseKey path sep) (parseKey key sep)

theorem isContainer_write (hp : p ≠ []) (hw : write falsy p value d = some d') :
    isContainer d' = isContainer d := by
  obtain ⟨s, p, rfl⟩ := List.exists_cons_of_ne_nil hp
  rcases write_cases hw with ⟨k, m, c, rfl, rfl, -, rfl⟩ |
    ⟨i, xs, n, x, c, rfl, rfl, -, -, -, rfl⟩ | ⟨xs, rfl, rfl, rfl, rfl⟩ <;> rfl

theorem apart_ne_nil (h : Apart sep path key) : parseKey path sep ≠ [] := by
  intro hnil
  rw [Apart, hnil] at h
  cases h

/-- A change that leaves what the steps of a key find leaves what the key finds. -/
theorem getEntry_of_descend (hd : isContainer d' = isContainer d)
    (h : descend (parseKey key sep) d = .ok v → descend (parseKey key sep) d' = .ok v)
    (hkey : getEntry d key sep = .ok v) : getEntry d' key sep = .ok v := by
  rw [getEntry, hd]
  rw [getEntry] at hkey
  split at hkey
  · next hinvalid =>
    rw [if_pos hinvalid]
    exact hkey
  · next hinvalid =>
    rw [if_neg hinvalid]
    exact h hkey

/-- What is found under another key is found there afterwards. -/
theorem getEntry_put_other {changed : Bool} (h : put sep path value d = .ok (changed, d'))
    (hapart : Apart sep path key) (hkey : getEntry d key sep = .ok v) :
    getEntry d' key sep = .ok v := by
  rcases put_cases h with ⟨-, rfl⟩ | ⟨-, -, -, -, ⟨rfl, -, rfl⟩ | ⟨-, hvalid, hw⟩⟩
  · exact hkey
  · exact absurd (parseKey_empty sep) (apart_ne_nil hapart)
  · exact getEntry_of_descend (isContainer_write (apart_ne_nil hapart) hw)
      (descend_write_other hw hapart) hkey

theorem put_unchanged (h : put sep path value d = .ok (false, d')) : d' = d := by
  rcases put_cases h with ⟨-, he⟩ | ⟨-, hfalse, -⟩
  · exact he
  · cases hfalse

/-- Setting a value changes the document exactly when it says so; the value is then found under
its key, and every key that leads elsewhere finds what it found before. -/
theorem put_exact {changed : Bool} (h : put sep path value d = .ok (changed, d')) :
    (changed = true → getEntry d' path sep = .ok value ∧ equal d d' = false) ∧
    (changed = false → d' = d) ∧
    ∀ key v, Apart sep path key → getEntry d key sep = .ok v → getEntry d' key sep = .ok v := by
  refine ⟨?_, ?_, fun key v hapart hkey => getEntry_put_other h hapart hkey⟩
  · rintro rfl
    exact ⟨getEntry_put h, put_differs h⟩
  · rintro rfl
    exact put_unchanged h

def one : Value := .scalar (.int 1)

theorem put_exact_nested :
    (true = true → getEntry (.dict [("a", .dict [("b", one)])]) "a.b" "." = .ok one ∧
        equal (.dict []) (.dict [("a", .dict [("b", one)])]) = false) ∧
    (true = false → Doc.dict [("a", .dict [("b", one)])] = .dict []) ∧
    ∀ key v, Apart "." "a.b" key → getEntry (.dict []) key "." = .ok v →
      getEntry (.dict [("a", .dict [("b", one)])]) key "." = .ok v :=
  put_exact rfl

end Yedit
