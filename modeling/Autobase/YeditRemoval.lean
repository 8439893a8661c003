import Autobase.YeditEdits

/-! # Removals from a document

An entry is taken out under its key, or a member out of the entry. An entry that is null counts as
missing and stays. -/
namespace YeditRemoval

open ObjectLiterals DocumentTrees DocumentPlaces YeditKeys Yedit YeditEdits

/-! ## The operations -/

def noIndex (index : ℤ) : Error :=
  .yedit ("remove_entry for a dictionary does not have an index " ++ toString index)

/-- `list.pop` at a position -/
def popAt (xs : List Value) (i : ℤ) : Outcome (Option Value) :=
  match position xs.length i with
  | some n => .ok (some (.list (xs.eraseIdx n)))
  | none => .error .indexError

/-- `dict.pop` of a value, which need not be a key. -/
def popKey (m : List (String × Value)) : Value → Outcome (Option Value)
  | .scalar (.str k) =>
    if k ∈ keys m then .ok (some (.dict (m.filter fun a => decide (a.1 ≠ k)))) else .error .keyError
  | .scalar _ => .error .keyError
  | _ => .error .typeError

/-- The empty key: a member of the document, or all of them. -/
def removeRoot (data : Value) (index : Option ℤ) (value : Value) : Outcome (Option Value) :=
  match data with
  | .dict m =>
    if isNull value then
      match index with
      | some i => .error (noIndex i)
      | none => .ok (some (.dict []))
    else popKey m value
  | .list xs =>
    if isNull value then
      match index with
      | some i => popAt xs i
      | none => .ok (some (.list []))
    else
      match indexOf value xs with
      | some n => popAt xs n
      | none => .ok none
  | .scalar _ => .error .indexError

/-- The loop of `remove_entry` and its last index. -/
def removeAt : List Step → Value → Outcome (Option Value)
  | [], _ => .error .indexError
  | [.key k], .dict m =>
    if k ∈ keys m then .ok (some (.dict (m.filter fun a => decide (a.1 ≠ k)))) else .error .keyError
  | [.index i], .list xs => if i ≤ (xs.length : ℤ) - 1 then popAt xs i else .ok none
  | .key k :: p, .dict m =>
    match m.lookup k with
    | some c => (removeAt p c).map fun r => r.map fun c' => .dict (assign k c' m)
    | none => .ok none
  | .index i :: p, .list xs =>
    if i ≤ (xs.length : ℤ) - 1 then
      match position xs.length i with
      | some n =>
        match xs[n]? with
        | some x => (removeAt p x).map fun r => r.map fun c => .list (xs.set n c)
        | none => .error .indexError
      | none => .error .indexError
    else .ok none
  | _ :: _, _ => .ok none

/-- The changed document, or none where nothing was removed. -/
def removeEntry (data : Value) (key : String) (index : Option ℤ) (value : Value) (sep : String) :
    Outcome (Option Value) :=
  if key = "" then removeRoot data index value
  else if validKey key = false ∧ isContainer data = true then .ok none
  else removeAt (parseKey key sep) data

def delete (sep path : String) (index : Option ℤ) (value d : Value) : Outcome Edited :=
  (getEntry d path sep).bind fun entry =>
    if isNull entry then .ok (false, d)
    else
      (removeEntry d path index value sep).map fun
        | none => (false, d)
        | some d' => (true, d')

/-- A member of the entry is taken out. -/
def pop (sep path : String) (keyOrItem d : Value) : Outcome Edited :=
  (getEntry d path sep).bind fun entry =>
    match entry with
    | .dict m =>
      match keyOrItem with
      | .scalar (.str k) =>
        if k ∈ keys m then
          .ok (true, setEntry sep path (.dict (m.filter fun a => decide (a.1 ≠ k))) d)
        else .ok (false, d)
      | .scalar _ => .ok (false, d)
      | _ => .error .typeError
    | .list xs =>
      match indexOf keyOrItem xs with
      | some n => .ok (true, setEntry sep path (.list (xs.eraseIdx n)) d)
      | none => .ok (false, d)
    | .scalar _ => .ok (false, d)

variable {sep path key : String} {p q : List Step} {d d' v value entry : Value} {s : Step}
  {index : Option ℤ} {changed : Bool}

/-! ## What is removed -/

/-- The last step is taken out of what the others lead to. -/
theorem update_of_removeAt (h : removeAt q d = .ok (some d')) :
    ∃ p s, q = p ++ [s] ∧ DocumentPlaces.update (dropChild s) p d = some d' := by
  fun_induction removeAt q d generalizing d' with
  | case1 => cases h
  | case2 k m hk =>
    refine ⟨[], .key k, rfl, ?_⟩
    rw [DocumentPlaces.update, dropChild, if_pos hk, Option.some.inj (Except.ok.inj h)]
  | case3 => cases h
  | case4 i xs hi =>
    refine ⟨[], .index i, rfl, ?_⟩
    rw [popAt] at h
    split at h
    · next n hn =>
      rw [DocumentPlaces.update, dropChild, hn, Option.map_some,
        Option.some.inj (Except.ok.inj h)]
    · cases h
  | case5 => cases h
  | case6 k p m hp c hc ih =>
    obtain ⟨r, hr, hd⟩ := map_eq_ok.mp h
    obtain ⟨c', rfl, rfl⟩ := Option.map_eq_some_iff.mp hd
    obtain ⟨p, s, rfl, hupdate⟩ := ih hr
    exact ⟨.key k :: p, s, rfl,
      by rw [DocumentPlaces.update, hc, Option.bind_some, hupdate, Option.map_some]⟩
  | case7 => cases h
  | case8 i p xs hp hi n hn x hx ih =>
    obtain ⟨r, hr, hd⟩ := map_eq_ok.mp h
    obtain ⟨c', rfl, rfl⟩ := Option.map_eq_some_iff.mp hd
    obtain ⟨p, s, rfl, hupdate⟩ := ih hr
    exact ⟨.index i :: p, s, rfl, by
      rw [DocumentPlaces.update, hn, Option.bind_some, hx, Option.bind_some, hupdate,
        Option.map_some]⟩
  | case9 => cases h
  | case10 => cases h
  | case11 => cases h
  | case12 => cases h

theorem delete_cases (h : delete sep path index value d = .ok (changed, d')) :
    (changed = false ∧ d' = d) ∨
    ∃ entry, changed = true ∧ getEntry d path sep = .ok entry ∧ isNull entry = false ∧
      removeEntry d path index value sep = .ok (some d') := by
  obtain ⟨entry, hentry, h⟩ := bind_eq_ok.mp h
  split at h
  · obtain ⟨rfl, rfl⟩ := Prod.mk.inj (Except.ok.inj h)
    exact Or.inl ⟨rfl, rfl⟩
  · next hnull =>
    obtain ⟨r, hr, h⟩ := map_eq_ok.mp h
    cases r with
    | none =>
      obtain ⟨rfl, rfl⟩ := Prod.mk.inj h
      exact Or.inl ⟨rfl, rfl⟩
    | some d₁ =>
      obtain ⟨rfl, rfl⟩ := Prod.mk.inj h
      exact Or.inr ⟨entry, rfl, hentry, by simpa using hnull, hr⟩

theorem descend_append (p q : List Step) (d : Value) :
    descend (p ++ q) d = (descend p d).bind (descend q) := by
  induction p generalizing d with
  | nil => rfl
  | cons s p ih =>
    have hnull : (Except.ok null : Outcome Value).bind (descend q) = .ok null := descend_null q
    cases s with
    | key k =>
      cases d with
      | dict m =>
        rw [List.cons_append, descend, descend]
        exact ih _
      | scalar a => exact hnull.symm
      | list xs => exact hnull.symm
    | index i =>
      cases d with
      | list xs =>
        rw [List.cons_append, descend, descend]
        split
        · split
          · exact ih _
          · rfl
        · exact hnull.symm
      | scalar a => exact hnull.symm
      | dict m => exact hnull.symm

theorem descend_update_other {f : Value → Option Value}
    (h : DocumentPlaces.update f p d = some d') (hpq : Diverge p q) (hq : descend q d = .ok v) :
    descend q d' = .ok v := by
  obtain ⟨c, hc⟩ := update_const h
  exact descend_write_other (write_of_update hollow_falsy hc) hpq hq

theorem descend_dropChild {k : String} {c c' : Value} {t : Step}
    (h : dropChild (.key k) c = some c') (hst : Separate (.key k) t) :
    descend (t :: q) c' = descend (t :: q) c := by
  have hchild := child_dropChild_key h t
  cases c with
  | dict m =>
    rw [dropChild] at h
    split at h
    · obtain rfl := Option.some.inj h
      cases t with
      | index j => rfl
      | key l =>
        rw [if_neg (fun he => hst (Step.key.inj he).symm)] at hchild
        rw [descend, descend]
        exact congrArg (fun o : Option Value => descend q (o.getD null)) hchild
    · cases h
  | scalar a => cases h
  | list xs => cases h

theorem isContainer_update (h : DocumentPlaces.update (dropChild s) p d = some d') :
    isContainer d = true ∧ isContainer d' = true := by
  cases p with
  | nil =>
    cases d with
    | scalar a => cases s <;> cases h
    | list xs =>
      cases s with
      | key k => cases h
      | index i =>
        obtain ⟨n, -, rfl⟩ := Option.map_eq_some_iff.mp h
        exact ⟨rfl, rfl⟩
    | dict m =>
      cases s with
      | index i => cases h
      | key k =>
        rw [DocumentPlaces.update, dropChild] at h
        split at h
        · rw [← Option.some.inj h]
          exact ⟨rfl, rfl⟩
        · cases h
  | cons t p =>
    rcases DocumentPlaces.update_cases h with ⟨k, m, c, c', rfl, rfl, -, -, rfl⟩ |
      ⟨i, xs, n, c, c', rfl, rfl, -, -, -, rfl⟩ <;> exact ⟨rfl, rfl⟩

/-- A removal under a key takes one member out of one container. -/
theorem delete_removes (h : delete sep path index value d = .ok (true, d')) (hpath : path ≠ "") :
    ∃ p s c c', parseKey path sep = p ++ [s] ∧ validKey path = true ∧
      DocumentPlaces.update (dropChild s) p d = some d' ∧ read p d = some c ∧
      dropChild s c = some c' ∧ read p d' = some c' := by
  rcases delete_cases h with ⟨hfalse, -⟩ | ⟨entry, -, hentry, hfull, hremove⟩
  · cases hfalse
  · rw [removeEntry, if_neg hpath] at hremove
    split at hremove
    · cases hremove
    · next hinvalid =>
      obtain ⟨p, s, hkey, hupdate⟩ := update_of_removeAt hremove
      obtain ⟨c, c', hc, hdrop, hc'⟩ := read_update_self hupdate
      refine ⟨p, s, c, c', hkey, ?_, hupdate, hc, hdrop, hc'⟩
      simpa [(isContainer_update hupdate).1] using hinvalid

theorem ne_empty_of_parseKey (h : parseKey path sep = p ++ [s]) : path ≠ "" := by
  rintro rfl
  rw [parseKey_empty] at h
  exact List.append_ne_nil_of_right_ne_nil p (List.cons_ne_nil _ _) h.symm

/-- The key of a mapping that was removed finds nothing, and every key that leads elsewhere finds
what it found before. -/
theorem delete_key {k : String} (h : delete sep path index value d = .ok (true, d'))
    (hkey : parseKey path sep = p ++ [.key k]) :
    getEntry d' path sep = .ok null ∧ Keeps sep path d d' := by
  obtain ⟨p', s, c, c', hkey', hvalid, hupdate, hc, hdrop, hc'⟩ :=
    delete_removes h (ne_empty_of_parseKey hkey)
  rw [hkey] at hkey'
  obtain ⟨rfl, hlast⟩ := List.append_inj' hkey' rfl
  obtain rfl := (List.cons.inj hlast).1
  constructor
  · have hgone := child_dropChild_key hdrop (.key k)
    rw [if_pos rfl] at hgone
    rw [getEntry_valid hvalid, hkey, descend_append, descend_of_read hc']
    cases c' with
    | dict m =>
      rw [child] at hgone
      change descend [.key k] (.dict m) = _
      rw [descend, hgone, Option.getD_none, descend_null]
    | scalar a => rfl
    | list xs => rfl
  · intro other v hapart hother
    obtain ⟨hd, hd'⟩ := isContainer_update hupdate
    refine getEntry_of_descend (hd'.trans hd.symm) (fun hfound => ?_) hother
    rw [Apart, hkey] at hapart
    rcases diverge_append hapart with hpart | ⟨t, q, hq, hst⟩
    · exact descend_update_other hupdate hpart hfound
    · rw [hq, descend_append, descend_of_read hc] at hfound
      rw [hq, descend_append, descend_of_read hc']
      exact (descend_dropChild hdrop hst).trans hfound

/-- The members behind a removed one move up. -/
theorem delete_index {i : ℤ} (h : delete sep path index value d = .ok (true, d'))
    (hkey : parseKey path sep = p ++ [.index i]) (hi : 0 ≤ i) :
    ∃ xs, read p d = some (.list xs) ∧ read p d' = some (.list (xs.eraseIdx i.toNat)) := by
  obtain ⟨p', s, c, c', hkey', -, -, hc, hdrop, hc'⟩ :=
    delete_removes h (ne_empty_of_parseKey hkey)
  rw [hkey] at hkey'
  obtain ⟨rfl, hlast⟩ := List.append_inj' hkey' rfl
  obtain rfl := (List.cons.inj hlast).1
  cases c with
  | list xs =>
    obtain ⟨n, hn, rfl⟩ := Option.map_eq_some_iff.mp hdrop
    have hpos := position_eq_some hn
    rw [if_pos hi] at hpos
    have hindex : i.toNat = n := by omega
    exact ⟨xs, hc, hindex ▸ hc'⟩
  | scalar a => cases hdrop
  | dict m => cases hdrop

theorem isContainer_delete {k : String} (h : delete sep path index value d = .ok (true, d'))
    (hkey : parseKey path sep = p ++ [.key k]) : isContainer d' = true := by
  obtain ⟨_, _, _, _, -, -, hupdate, -⟩ := delete_removes h (ne_empty_of_parseKey hkey)
  exact (isContainer_update hupdate).2

theorem delete_unchanged (h : delete sep path index value d = .ok (false, d')) : d' = d := by
  rcases delete_cases h with ⟨-, he⟩ | ⟨_, hfalse, -⟩
  · exact he
  · cases hfalse

theorem delete_missing (h : getEntry d path sep = .ok null) :
    delete sep path index value d = .ok (false, d) := by
  rw [delete, h]
  rfl

end YeditRemoval
