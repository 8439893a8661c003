import Autobase.Yedit

/-! # Edits of a document

A list of edits is worked off in turn: each sets, updates or appends a value. Edits that set values
at places apart from each other change nothing when they are made again. -/
namespace YeditEdits

open ObjectLiterals DocumentTrees DocumentPlaces YeditKeys Yedit

/-! ## Changing an entry in place -/

/-- `list.index` -/
def indexOf (value : Value) (xs : List Value) : Option ℕ := xs.findIdx? fun x => equal x value

/-- The entry that was found is changed where it stands. -/
def setEntry (sep path : String) (entry d : Value) : Value :=
  (DocumentPlaces.update (fun _ => some entry) (parseKey path sep) d).getD d

/-- What is outside of the repository: the YAML library, `json.loads` and `str`. A mapping that
was read holds every key once. -/
structure Library where
  safeLoad : String → Option Value
  jsonLoads : String → Option Value
  str : Value → String
  keyed : ∀ text v, safeLoad text = some v → v.wellKeyed = true

def typeName : Value → String
  | .scalar .none => "<class 'NoneType'>"
  | .scalar (.bool _) => "<class 'bool'>"
  | .scalar (.int _) => "<class 'int'>"
  | .scalar (.float _) => "<class 'float'>"
  | .scalar (.str _) => "<class 'str'>"
  | .list _ => "<class 'list'>"
  | .dict _ => "<class 'dict'>"

variable (L : Library)

def cannotReplace (value : Value) : Error :=
  .yedit ("Cannot replace key, value entry in dict with non-dict type. value=[" ++ L.str value ++
    "] type=[" ++ typeName value ++ "]")

def isNull : Value → Bool
  | .scalar .none => true
  | _ => false

def append (sep path : String) (value d : Value) : Outcome Edited :=
  (getEntry d path sep).bind fun entry =>
    (if isNull entry then
      (put sep path (.list []) d).bind fun result =>
        (getEntry result.2 path sep).map fun entry => (result.2, entry)
    else .ok (d, entry)).map fun found =>
      match found.2 with
      | .list xs => (true, setEntry sep path (.list (xs ++ [value])) found.1)
      | _ => (false, found.1)

/-- The end of `update` on a list: the member at the index, or a new last member. -/
def updateList (sep path : String) (value : Value) (xs : List Value) (ind : Option ℤ) (d : Value) :
    Outcome Edited :=
  let appended : Edited :=
    if (indexOf value xs).isSome then (false, d)
    else (true, setEntry sep path (.list (xs ++ [value])) d)
  match ind with
  | none => .ok appended
  | some i =>
    match position xs.length i with
    | none => .error .indexError
    | some n =>
      if xs[n]?.any fun x => equal x value then .ok appended
      else .ok (true, setEntry sep path (.list (xs.set n value)) d)

def update (sep path : String) (value : Value) (index : Option ℤ) (currValue d : Value) :
    Outcome Edited :=
  (getEntry d path sep).bind fun entry =>
    match entry with
    | .dict m =>
      match value with
      | .dict n => .ok (true, setEntry sep path (.dict (n.foldl (fun m a => assign a.1 a.2 m) m)) d)
      | _ => .error (cannotReplace L value)
    | .list xs =>
      if truthy currValue then
        match indexOf currValue xs with
        | none => .ok (false, d)
        | some n => updateList sep path value xs (some n) d
      else updateList sep path value xs index d
    | .scalar _ => .ok (false, d)

/-! ## Edits -/

def trueBools : List String :=
  ["y", "Y", "yes", "Yes", "YES", "true", "True", "TRUE", "on", "On", "ON"]

def falseBools : List String :=
  ["n", "N", "no", "No", "NO", "false", "False", "FALSE", "off", "Off", "OFF"]

/-- `word in text` -/
def contains (text word : String) : Bool := decide (word.toList <:+: text.toList)

def notABoolean (value vtype : String) : Error :=
  .yedit ("Not a boolean type. str=[" ++ value ++ "] vtype=[" ++ vtype ++ "]")

def couldNotDetermine (vtype : String) : Error :=
  .yedit ("Could not determine type of incoming value. value=[<class 'str'>] vtype=[" ++ vtype ++
    "]")

def loadText (text vtype : String) : Outcome Value :=
  -- the empty text would be loaded as null
  if text = "" then .ok (.scalar (.str text))
  else if contains vtype "str" then .ok (.scalar (.str text))
  else
    match L.safeLoad text with
    | some v => .ok v
    | none => .error (couldNotDetermine vtype)

def parseValue (incValue : Value) (vtype : String) : Outcome Value :=
  match incValue with
  | .scalar (.str text) =>
    if contains vtype "bool" && !(trueBools.contains text || falseBools.contains text) then
      .error (notABoolean text vtype)
    else loadText L text vtype
  | .scalar (.bool b) =>
    if contains vtype "str" then .ok (.scalar (.str (if b then "True" else "False")))
    else .ok incValue
  | _ => .ok incValue

def getCurrValue (invalue : Value) (valType : Option String) : Outcome Value :=
  if isNull invalue then .ok null
  else if valType = some "yaml" then
    match L.safeLoad (L.str invalue) with
    | some v => .ok v
    | none => .error .yamlError
  else if valType = some "json" then
    match invalue with
    | .scalar (.str text) =>
      match L.jsonLoads text with
      | some v => .ok v
      | none => .error .valueError
    | _ => .error .typeError
  else .ok invalue

inductive Action where
  | update (index : Option ℤ) (currValue : Value) (currValueFormat : Option String)
  | append
  | put
  deriving Inhabited

structure Edit where
  key : String
  value : Value
  valueType : String
  action : Action
  keyed : value.wellKeyed = true

def Edit.run (sep : String) (e : Edit) (d : Value) : Outcome Edited :=
  (parseValue L e.value e.valueType).bind fun value =>
    match e.action with
    | .update index currValue format =>
      (parseValue L currValue "").bind fun parsed =>
        (getCurrValue L parsed format).bind fun curr => update L sep e.key value index curr d
    | .append => append sep e.key value d
    | .put => put sep e.key value d

/-- The keys of the edits that changed something, and the document. -/
def processEdits (sep : String) : List Edit → Value → Outcome (List String × Value)
  | [], d => .ok ([], d)
  | e :: edits, d =>
    (e.run L sep d).bind fun result =>
      (processEdits sep edits result.2).map fun rest =>
        (if result.1 then e.key :: rest.1 else rest.1, rest.2)

/-! ## What an edit leaves alone -/

variable {L} {sep path key : String} {d d' v value entry : Value} {changed : Bool} {e : Edit}
  {edits : List Edit} {keys : List String}

theorem isContainer_of_getEntry (h : getEntry d path sep = .ok entry)
    (hentry : isContainer entry = true) : read (parseKey path sep) d = some entry ∧
      ¬ (path ≠ "" ∧ validKey path = false) ∧ isContainer d = true := by
  rw [getEntry] at h
  split at h
  · obtain rfl := Except.ok.inj h
    cases hentry
  · next hvalid =>
    have hread : read (parseKey path sep) d = some entry := by
      have he := descend_eq h
      cases hr : read (parseKey path sep) d with
      | none => rw [he, hr] at hentry; cases hentry
      | some u => rw [he, hr, Option.getD_some]
    have hd : isContainer d = true := by
      cases d with
      | scalar a =>
        cases hp : parseKey path sep with
        | nil => rw [hp] at hread; rw [Option.some.inj hread]; exact hentry
        | cons s p => rw [hp] at hread; cases s <;> cases hread
      | list xs => rfl
      | dict m => rfl
    refine ⟨hread, fun hboth => hvalid ⟨hboth.1, hboth.2, hd⟩, hd⟩

theorem setEntry_write (h : getEntry d path sep = .ok entry) (hentry : isContainer entry = true)
    (v : Value) : write falsy (parseKey path sep) v d = some (setEntry sep path v d) := by
  obtain ⟨d', hd'⟩ := update_of_read (f := fun _ => some v)
    (isContainer_of_getEntry h hentry).1 rfl
  rw [setEntry, hd', Option.getD_some]
  exact write_of_update hollow_falsy hd'

theorem getEntry_setEntry (h : getEntry d path sep = .ok entry)
    (hentry : isContainer entry = true) (v : Value) :
    getEntry (setEntry sep path v d) path sep = .ok v := by
  obtain ⟨-, hvalid, -⟩ := isContainer_of_getEntry h hentry
  rw [getEntry, if_neg fun hall => hvalid ⟨hall.1, hall.2.1⟩]
  exact descend_of_read (read_write_self (setEntry_write h hentry v))

theorem getEntry_setEntry_other (h : getEntry d path sep = .ok entry)
    (hentry : isContainer entry = true) (hapart : Apart sep path key)
    (hkey : getEntry d key sep = .ok v) (w : Value) :
    getEntry (setEntry sep path w d) key sep = .ok v := by
  have hw := setEntry_write h hentry w
  exact getEntry_of_descend (isContainer_write (apart_ne_nil hapart) hw)
    (descend_write_other hw hapart) hkey

/-- Every key that leads elsewhere finds what it found before. -/
def Keeps (sep path : String) (d d' : Value) : Prop :=
  ∀ key v, Apart sep path key → getEntry d key sep = .ok v → getEntry d' key sep = .ok v

theorem keeps_self (sep path : String) (d : Value) : Keeps sep path d d := fun _ _ _ h => h

theorem keeps_setEntry (h : getEntry d path sep = .ok entry) (hentry : isContainer entry = true)
    (v : Value) : Keeps sep path d (setEntry sep path v d) :=
  fun _ _ hapart hkey => getEntry_setEntry_other h hentry hapart hkey v

theorem keeps_put (h : put sep path value d = .ok (changed, d')) : Keeps sep path d d' :=
  fun _ _ hapart hkey => getEntry_put_other h hapart hkey

/-! ## Appending -/

theorem eq_null_of_isNull (h : isNull v = true) : v = null := by
  cases v with
  | scalar a =>
    cases a with
    | none => rfl
    | bool b => cases h
    | int n => cases h
    | float q => cases h
    | str s => cases h
  | list xs => cases h
  | dict m => cases h

/-- A value is appended to the list under the key. Where there is no value a list is made. -/
theorem append_cases (h : append sep path value d = .ok (changed, d')) :
    (changed = false ∧ d' = d) ∨
    ∃ xs d₀, changed = true ∧ getEntry d₀ path sep = .ok (.list xs) ∧
      d' = setEntry sep path (.list (xs ++ [value])) d₀ ∧
      (d₀ = d ∨ xs = [] ∧ getEntry d path sep = .ok null ∧
        put sep path (.list []) d = .ok (true, d₀)) := by
  obtain ⟨entry, hentry, h⟩ := bind_eq_ok.mp h
  obtain ⟨⟨d₀, found⟩, hfound, h⟩ := map_eq_ok.mp h
  split at hfound
  · next hnull =>
    obtain ⟨⟨set, d₁⟩, hput, hfound⟩ := bind_eq_ok.mp hfound
    obtain ⟨entry', hentry', hpair⟩ := map_eq_ok.mp hfound
    obtain ⟨rfl, rfl⟩ := Prod.mk.inj hpair
    cases set with
    | false =>
      obtain rfl := put_unchanged hput
      obtain rfl := Except.ok.inj (hentry.symm.trans hentry')
      rw [eq_null_of_isNull hnull] at h
      obtain ⟨rfl, rfl⟩ := Prod.mk.inj h
      exact Or.inl ⟨rfl, rfl⟩
    | true =>
      obtain rfl := Except.ok.inj ((getEntry_put hput).symm.trans hentry')
      obtain ⟨rfl, rfl⟩ := Prod.mk.inj h
      rw [eq_null_of_isNull hnull] at hentry
      exact Or.inr ⟨[], _, rfl, hentry', rfl, Or.inr ⟨rfl, hentry, hput⟩⟩
  · obtain ⟨rfl, rfl⟩ := Prod.mk.inj (Except.ok.inj hfound)
    split at h
    · next xs hxs =>
      obtain ⟨rfl, rfl⟩ := Prod.mk.inj h
      obtain rfl : entry = .list xs := hxs
      exact Or.inr ⟨xs, d, rfl, hentry, rfl, Or.inl rfl⟩
    · obtain ⟨rfl, rfl⟩ := Prod.mk.inj h
      exact Or.inl ⟨rfl, rfl⟩

theorem append_keeps (h : append sep path value d = .ok (changed, d')) : Keeps sep path d d' := by
  rcases append_cases h with ⟨-, rfl⟩ | ⟨xs, d₀, -, hlist, rfl, rfl | ⟨-, -, hput⟩⟩
  · exact keeps_self sep path _
  · exact keeps_setEntry hlist rfl _
  · exact fun key v hapart hkey => keeps_setEntry hlist rfl _ key v hapart
      (keeps_put hput key v hapart hkey)

/-- One more value stands at the end of the list. -/
theorem append_exact (h : append sep path value d = .ok (true, d')) :
    ∃ xs, getEntry d' path sep = .ok (.list (xs ++ [value])) ∧
      (getEntry d path sep = .ok (.list xs) ∨ xs = [] ∧ getEntry d path sep = .ok null) := by
  rcases append_cases h with ⟨hfalse, -⟩ | ⟨xs, d₀, -, hlist, rfl, rfl | ⟨hxs, hnull, -⟩⟩
  · cases hfalse
  · exact ⟨xs, getEntry_setEntry hlist rfl _, Or.inl hlist⟩
  · exact ⟨xs, getEntry_setEntry hlist rfl _, Or.inr ⟨hxs, hnull⟩⟩

/-! ## Updating -/

theorem updateList_cases {xs : List Value} {ind : Option ℤ}
    (h : updateList sep path value xs ind d = .ok (changed, d')) :
    (changed = false ∧ d' = d ∧ (indexOf value xs).isSome = true) ∨
    changed = true ∧
      ((d' = setEntry sep path (.list (xs ++ [value])) d ∧ indexOf value xs = none) ∨
        ∃ n, n < xs.length ∧ d' = setEntry sep path (.list (xs.set n value)) d) := by
  have happended : ∀ {changed d'}, (if (indexOf value xs).isSome then (false, d)
      else (true, setEntry sep path (.list (xs ++ [value])) d)) = (changed, d') →
      (changed = false ∧ d' = d ∧ (indexOf value xs).isSome = true) ∨
      changed = true ∧ d' = setEntry sep path (.list (xs ++ [value])) d ∧
        indexOf value xs = none := by
    intro changed d' he
    split at he
    · next hsome =>
      obtain ⟨rfl, rfl⟩ := Prod.mk.inj he
      exact Or.inl ⟨rfl, rfl, hsome⟩
    · next hnone =>
      obtain ⟨rfl, rfl⟩ := Prod.mk.inj he
      exact Or.inr ⟨rfl, rfl, by simpa using hnone⟩
  cases ind with
  | none =>
    rcases happended (Except.ok.inj h) with hfalse | ⟨htrue, hend⟩
    · exact Or.inl hfalse
    · exact Or.inr ⟨htrue, Or.inl hend⟩
  | some i =>
    rw [updateList] at h
    split at h
    · cases h
    · next n hn =>
      split at h
      · rcases happended (Except.ok.inj h) with hfalse | ⟨htrue, hend⟩
        · exact Or.inl hfalse
        · exact Or.inr ⟨htrue, Or.inl hend⟩
      · obtain ⟨rfl, rfl⟩ := Prod.mk.inj (Except.ok.inj h)
        exact Or.inr ⟨rfl, Or.inr ⟨n, position_lt hn, rfl⟩⟩

/-- An update leaves the document, merges a mapping into a mapping, or changes a list. -/
theorem update_cases {index : Option ℤ} {curr : Value}
    (h : YeditEdits.update L sep path value index curr d = .ok (changed, d')) :
    (changed = false ∧ d' = d) ∨
    (∃ m n, changed = true ∧ getEntry d path sep = .ok (.dict m) ∧ value = .dict n ∧
      d' = setEntry sep path (.dict (n.foldl (fun m a => assign a.1 a.2 m) m)) d) ∨
    ∃ xs ys, changed = true ∧ getEntry d path sep = .ok (.list xs) ∧
      d' = setEntry sep path (.list ys) d ∧
      ((ys = xs ++ [value] ∧ indexOf value xs = none) ∨
        ∃ n, n < xs.length ∧ ys = xs.set n value) := by
  obtain ⟨entry, hentry, h⟩ := bind_eq_ok.mp h
  have hlist : ∀ xs ind, entry = .list xs →
      updateList sep path value xs ind d = .ok (changed, d') →
      (changed = false ∧ d' = d) ∨ ∃ xs ys, changed = true ∧
        getEntry d path sep = .ok (.list xs) ∧ d' = setEntry sep path (.list ys) d ∧
        ((ys = xs ++ [value] ∧ indexOf value xs = none) ∨
          ∃ n, n < xs.length ∧ ys = xs.set n value) := by
    rintro xs ind rfl hupdate
    rcases updateList_cases hupdate with ⟨hfalse, he, -⟩ | ⟨htrue, ⟨he, hnone⟩ | ⟨n, hn, he⟩⟩
    · exact Or.inl ⟨hfalse, he⟩
    · exact Or.inr ⟨xs, _, htrue, hentry, he, Or.inl ⟨rfl, hnone⟩⟩
    · exact Or.inr ⟨xs, _, htrue, hentry, he, Or.inr ⟨n, hn, rfl⟩⟩
  cases entry with
  | scalar a =>
    obtain ⟨rfl, rfl⟩ := Prod.mk.inj (Except.ok.inj h)
    exact Or.inl ⟨rfl, rfl⟩
  | dict m =>
    cases value with
    | dict n =>
      obtain ⟨rfl, rfl⟩ := Prod.mk.inj (Except.ok.inj h)
      exact Or.inr (Or.inl ⟨m, n, rfl, hentry, rfl, rfl⟩)
    | scalar a => cases h
    | list xs => cases h
  | list xs =>
    simp only at h
    split at h
    · split at h
      · obtain ⟨rfl, rfl⟩ := Prod.mk.inj (Except.ok.inj h)
        exact Or.inl ⟨rfl, rfl⟩
      · exact (hlist xs _ rfl h).imp_right Or.inr
    · exact (hlist xs _ rfl h).imp_right Or.inr

theorem update_keeps {index : Option ℤ} {curr : Value}
    (h : YeditEdits.update L sep path value index curr d = .ok (changed, d')) :
    Keeps sep path d d' := by
  rcases update_cases h with ⟨-, rfl⟩ | ⟨m, n, -, hentry, -, rfl⟩ | ⟨xs, ys, -, hentry, rfl, -⟩
  · exact keeps_self sep path _
  · exact keeps_setEntry hentry rfl _
  · exact keeps_setEntry hentry rfl _

/-! ## Lists of edits -/

/-- The operation of an edit, on the value the edit stands for. -/
theorem run_cases (h : e.run L sep d = .ok (changed, d')) :
    ∃ value, parseValue L e.value e.valueType = .ok value ∧
      ((∃ index curr format c, e.action = .update index curr format ∧
          YeditEdits.update L sep e.key value index c d = .ok (changed, d')) ∨
        (e.action = .append ∧ append sep e.key value d = .ok (changed, d')) ∨
        (e.action = .put ∧ put sep e.key value d = .ok (changed, d'))) := by
  obtain ⟨value, hvalue, h⟩ := bind_eq_ok.mp h
  refine ⟨value, hvalue, ?_⟩
  cases hact : e.action with
  | update index curr format =>
    rw [hact] at h
    obtain ⟨parsed, -, h⟩ := bind_eq_ok.mp h
    obtain ⟨c, -, h⟩ := bind_eq_ok.mp h
    exact Or.inl ⟨index, curr, format, c, rfl, h⟩
  | append =>
    rw [hact] at h
    exact Or.inr (Or.inl ⟨rfl, h⟩)
  | put =>
    rw [hact] at h
    exact Or.inr (Or.inr ⟨rfl, h⟩)

theorem run_keeps (h : e.run L sep d = .ok (changed, d')) : Keeps sep e.key d d' := by
  obtain ⟨value, -, ⟨index, curr, format, c, -, h⟩ | ⟨-, h⟩ | ⟨-, h⟩⟩ := run_cases h
  · exact update_keeps h
  · exact append_keeps h
  · exact keeps_put h

theorem run_unchanged (h : e.run L sep d = .ok (false, d')) : d' = d := by
  obtain ⟨value, -, ⟨index, curr, format, c, -, h⟩ | ⟨-, h⟩ | ⟨-, h⟩⟩ := run_cases h
  · rcases update_cases h with ⟨-, he⟩ | ⟨_, _, hfalse, -⟩ | ⟨_, _, hfalse, -⟩
    · exact he
    · cases hfalse
    · cases hfalse
  · rcases append_cases h with ⟨-, he⟩ | ⟨_, _, hfalse, -⟩
    · exact he
    · cases hfalse
  · exact put_unchanged h

theorem processEdits_cons (h : processEdits L sep (e :: edits) d = .ok (keys, d')) :
    ∃ changed d₁ rest, e.run L sep d = .ok (changed, d₁) ∧
      processEdits L sep edits d₁ = .ok (rest, d') ∧
      keys = if changed then e.key :: rest else rest := by
  obtain ⟨⟨changed, d₁⟩, hrun, h⟩ := bind_eq_ok.mp h
  obtain ⟨⟨rest, d₂⟩, hrest, h⟩ := map_eq_ok.mp h
  obtain ⟨rfl, rfl⟩ := Prod.mk.inj h
  exact ⟨changed, d₁, rest, hrun, hrest, rfl⟩

theorem processEdits_of_run {d₁ : Value} (hrun : e.run L sep d = .ok (changed, d₁))
    (h : processEdits L sep edits d₁ = .ok (keys, d')) :
    processEdits L sep (e :: edits) d = .ok (if changed then e.key :: keys else keys, d') := by
  rw [processEdits, hrun]
  simp only [Except.bind, h, Except.map]

/-- Whatever the edits do, a key that leads elsewhere than all of theirs finds what it found
before. -/
theorem processEdits_keeps (h : processEdits L sep edits d = .ok (keys, d'))
    (hapart : ∀ e ∈ edits, Apart sep e.key key) (hkey : getEntry d key sep = .ok v) :
    getEntry d' key sep = .ok v := by
  induction edits generalizing d keys with
  | nil =>
    obtain ⟨-, rfl⟩ := Prod.mk.inj (Except.ok.inj h)
    exact hkey
  | cons e edits ih =>
    obtain ⟨he, hrest⟩ := List.forall_mem_cons.mp hapart
    obtain ⟨changed, d₁, rest, hrun, hprocess, -⟩ := processEdits_cons h
    exact ih hprocess hrest (run_keeps hrun key v he hkey)

/-- A library that reads a text of digits as a number and any other text as itself. -/
def plainLibrary : Library where
  safeLoad text := some (if text.toList.all Char.isDigit then
    .scalar (.int (Nat.ofDigitChars 10 text.toList 0)) else .scalar (.str text))
  jsonLoads _ := none
  str _ := ""
  keyed := by
    intro text v h
    rw [← Option.some.inj h]
    split <;> rfl

def appendPort : Edit := ⟨"ports", .scalar (.str "5432"), "", .append, rfl⟩

theorem append_keeps_name :
    getEntry (.dict [("name", one), ("ports", .list [.scalar (.int 5432)])]) "name" "." =
      .ok one := by
  have h : processEdits plainLibrary "." [appendPort] (.dict [("name", one)]) =
      .ok (["ports"], .dict [("name", one), ("ports", .list [.scalar (.int 5432)])]) := rfl
  refine processEdits_keeps h ?_ rfl
  simp only [List.forall_mem_singleton, Apart]
  decide

/-- Edits of which none changed anything left the document alone. -/
theorem processEdits_unchanged (h : processEdits L sep edits d = .ok ([], d')) : d' = d := by
  induction edits generalizing d with
  | nil => exact (Prod.mk.inj (Except.ok.inj h)).2.symm
  | cons e edits ih =>
    obtain ⟨changed, d₁, rest, hrun, hprocess, hkeys⟩ := processEdits_cons h
    cases changed with
    | true => cases hkeys
    | false =>
      rw [if_neg (by decide)] at hkeys
      rw [← hkeys] at hprocess
      rw [ih hprocess, run_unchanged hrun]

/-! ## Making edits again -/

/-- Setting the value changes nothing. -/
def Idle (sep path : String) (value d : Value) : Prop := put sep path value d = .ok (false, d)

theorem idle_of_found (hentry : getEntry d path sep = .ok entry)
    (h : equal entry value = true) : Idle sep path value d := by
  rw [Idle, put, hentry]
  simp [Except.bind, h]

/-- A value that was set is set. -/
theorem idle_put (hvalue : value.wellKeyed = true)
    (h : put sep path value d = .ok (changed, d')) : Idle sep path value d' := by
  cases changed with
  | true =>
    exact idle_of_found (getEntry_put h) (value.eqv_refl Scalar.same_refl hvalue)
  | false =>
    obtain rfl := put_unchanged h
    exact h

theorem idle_of_invalid (hpath : path ≠ "") (hvalid : validKey path = false)
    (hd : isContainer d = true) : Idle sep path value d := by
  have hentry : getEntry d path sep = .ok null := by rw [getEntry, if_pos ⟨hpath, hvalid, hd⟩]
  rw [Idle, put, hentry, addEntry, if_neg hpath, if_pos ⟨hvalid, hd⟩]
  simp [Except.bind, Except.map]

theorem idle_cases (h : Idle sep path value d) :
    (∃ entry, getEntry d path sep = .ok entry ∧ equal entry value = true) ∨
      (path = "" ∧ isContainer value = false) ∨
      (path ≠ "" ∧ validKey path = false ∧ isContainer d = true) := by
  obtain ⟨entry, hentry, h⟩ := bind_eq_ok.mp h
  split at h
  · next hequal => exact Or.inl ⟨entry, hentry, hequal⟩
  · obtain ⟨result, hresult, h⟩ := map_eq_ok.mp h
    by_cases hpath : path = ""
    · refine Or.inr (Or.inl ⟨hpath, ?_⟩)
      rw [addEntry, if_pos hpath] at hresult
      obtain rfl := Except.ok.inj hresult
      simp only [if_pos hpath] at h
      split at h
      · cases h
      · next hcontainer => simpa using hcontainer
    · refine Or.inr (Or.inr ⟨hpath, ?_⟩)
      rw [addEntry, if_neg hpath] at hresult
      split at hresult
      · next hinvalid => exact hinvalid
      · obtain ⟨r, -, hr⟩ := map_eq_ok.mp hresult
        subst hr
        simp [hpath] at h

theorem apart_ne_empty {other : String} (h : Apart sep other path) : path ≠ "" := by
  rintro rfl
  exact diverge_ne_nil h (parseKey_empty sep)

/-- Setting a value elsewhere leaves the value set. -/
theorem idle_keeps {other : String} {v : Value} (hput : put sep other v d = .ok (changed, d'))
    (hapart : Apart sep other path) (h : Idle sep path value d) : Idle sep path value d' := by
  rcases idle_cases h with ⟨entry, hentry, hequal⟩ | ⟨hpath, -⟩ | ⟨hpath, hvalid, hd⟩
  · exact idle_of_found (keeps_put hput path entry hapart hentry) hequal
  · exact absurd hpath (apart_ne_empty hapart)
  · refine idle_of_invalid hpath hvalid ?_
    rcases put_cases hput with ⟨-, rfl⟩ | ⟨_, -, -, -, ⟨_, hcontainer, rfl⟩ | ⟨-, -, hw⟩⟩
    · exact hd
    · exact hcontainer
    · rw [isContainer_write (apart_ne_nil hapart) hw, hd]

/-- The edits set values at places apart from each other. -/
structure SetsApart (sep : String) (edits : List Edit) : Prop where
  puts : ∀ e ∈ edits, e.action = .put
  apart : edits.Pairwise fun e f => Apart sep e.key f.key

theorem run_put (hput : e.action = .put) (h : parseValue L e.value e.valueType = .ok value) :
    e.run L sep d = put sep e.key value d := by
  rw [Edit.run, h, hput]
  rfl

theorem parseValue_keyed (hv : v.wellKeyed = true) {vtype : String}
    (h : parseValue L v vtype = .ok value) : value.wellKeyed = true := by
  cases v with
  | scalar a =>
    cases a with
    | str text =>
      rw [parseValue] at h
      split at h
      · cases h
      · rw [loadText] at h
        split at h
        · rw [← Except.ok.inj h]; rfl
        · split at h
          · rw [← Except.ok.inj h]; rfl
          · split at h
            · next w hw =>
              obtain rfl := Except.ok.inj h
              exact L.keyed text _ hw
            · cases h
    | bool b =>
      rw [parseValue] at h
      split at h <;> · rw [← Except.ok.inj h]; rfl
    | none => rw [← Except.ok.inj h]; rfl
    | int n => rw [← Except.ok.inj h]; rfl
    | float q => rw [← Except.ok.inj h]; rfl
  | list xs => rw [← Except.ok.inj h]; exact hv
  | dict m => rw [← Except.ok.inj h]; exact hv

/-- Every edit of the list finds its value set. -/
def Settled (L : Library) (sep : String) (edits : List Edit) (d : Value) : Prop :=
  ∀ e ∈ edits, ∃ value, parseValue L e.value e.valueType = .ok value ∧ Idle sep e.key value d

theorem processEdits_settled (h : Settled L sep edits d)
    (hputs : ∀ e ∈ edits, e.action = .put) : processEdits L sep edits d = .ok ([], d) := by
  induction edits with
  | nil => rfl
  | cons e edits ih =>
    obtain ⟨⟨value, hvalue, hidle⟩, hrest⟩ := List.forall_mem_cons.mp h
    obtain ⟨he, hputs⟩ := List.forall_mem_cons.mp hputs
    rw [processEdits, run_put he hvalue, hidle]
    simp only [Except.bind]
    rw [ih hrest hputs]
    rfl

/-- Edits that were made are settled, and what was settled elsewhere stays so. -/
theorem settled_processEdits (hsets : SetsApart sep edits)
    (h : processEdits L sep edits d = .ok (keys, d')) :
    Settled L sep edits d' ∧
      ∀ path value, (∀ e ∈ edits, Apart sep e.key path) → Idle sep path value d →
        Idle sep path value d' := by
  induction edits generalizing d keys with
  | nil =>
    obtain ⟨-, rfl⟩ := Prod.mk.inj (Except.ok.inj h)
    exact ⟨List.forall_mem_nil _, fun _ _ _ hidle => hidle⟩
  | cons e edits ih =>
    obtain ⟨hput, hputs⟩ := List.forall_mem_cons.mp hsets.puts
    obtain ⟨happart, hpairs⟩ := List.pairwise_cons.mp hsets.apart
    obtain ⟨changed, d₁, rest, hrun, hprocess, -⟩ := processEdits_cons h
    obtain ⟨value, hvalue, hrun⟩ : ∃ value, parseValue L e.value e.valueType = .ok value ∧
        put sep e.key value d = .ok (changed, d₁) := by
      obtain ⟨value, hvalue, -⟩ := run_cases hrun
      rw [run_put hput hvalue] at hrun
      exact ⟨value, hvalue, hrun⟩
    obtain ⟨hsettled, hlater⟩ := ih ⟨hputs, hpairs⟩ hprocess
    have hidle := idle_put (parseValue_keyed e.keyed hvalue) hrun
    refine ⟨List.forall_mem_cons.mpr ⟨⟨value, hvalue, ?_⟩, hsettled⟩, ?_⟩
    · exact hlater e.key value (fun f hf => diverge_symm (happart f hf)) hidle
    · intro path value' hapart hidle'
      obtain ⟨he, hrest⟩ := List.forall_mem_cons.mp hapart
      exact hlater path value' hrest (idle_keeps hrun he hidle')

end YeditEdits
