import Autobase.JsonText
import Mathlib.Data.List.Forall2

/-! # Entries of the deployment log

The log of a deployment is a JSON array that the console decodes into entries. A key
selects a field by its exact name or by a name that folds to it, a null leaves a field
as it is, unknown keys are skipped, and one value of the wrong type fails the whole file. -/
namespace ConsoleLogEntity

open JsonText

/-- `msg` and `summary` hold any value; nil is the absence of one. -/
structure LogEntity where
  task : String
  failed : Bool
  msg : Option Json
  summary : Option Json
  status : String

def LogEntity.zero : LogEntity := ⟨"", false, none, none, ""⟩

inductive Field where
  | task | failed | msg | summary | status
  deriving DecidableEq, Repr

/-- The least character with the same fold. Besides the small letters only the long s and
the kelvin sign fold to a letter of ASCII. -/
def foldRune (c : Char) : Char :=
  if 97 ≤ c.toNat ∧ c.toNat ≤ 122 then Char.ofNat (c.toNat - 32)
  else if c.toNat = 0x17f then 'S'
  else if c.toNat = 0x212a then 'K'
  else c

def foldName (key : String) : List Char := key.toList.map foldRune

/-- The five names fold to different texts, so an exact match is a folded match. -/
def fieldOf (key : String) : Option Field :=
  if foldName key = ['T', 'A', 'S', 'K'] then some .task
  else if foldName key = ['F', 'A', 'I', 'L', 'E', 'D'] then some .failed
  else if foldName key = ['M', 'S', 'G'] then some .msg
  else if foldName key = ['S', 'U', 'M', 'M', 'A', 'R', 'Y'] then some .summary
  else if foldName key = ['S', 'T', 'A', 'T', 'U', 'S'] then some .status
  else none

mutual
/-- Every number of a value that is decoded into an interface becomes a double. -/
def fitsInterface : Json → Bool
  | .num x => x.fitsFloat64
  | .arr xs => fitElements xs
  | .obj kvs => fitMembers kvs
  | _ => true

def fitElements : List Json → Bool
  | [] => true
  | x :: xs => fitsInterface x && fitElements xs

def fitMembers : List (String × Json) → Bool
  | [] => true
  | (_, v) :: kvs => fitsInterface v && fitMembers kvs
end

theorem fitMembers_eq (kvs : List (String × Json)) :
    fitMembers kvs = kvs.all fun m => fitsInterface m.2 := by
  induction kvs with
  | nil => rfl
  | cons m kvs ih => simp [fitMembers, ih]

/-- A null sets an interface to nil. -/
def interfaceOf : Json → Option Json
  | .null => none
  | v => some v

def decodeField (e : LogEntity) (v : Json) : Field → Option LogEntity
  | .task =>
    match v with
    | .str s => some { e with task := s }
    | .null => some e
    | _ => none
  | .failed =>
    match v with
    | .bool b => some { e with failed := b }
    | .null => some e
    | _ => none
  | .msg => if fitsInterface v then some { e with msg := interfaceOf v } else none
  | .summary => if fitsInterface v then some { e with summary := interfaceOf v } else none
  | .status =>
    match v with
    | .str s => some { e with status := s }
    | .null => some e
    | _ => none

def decodeMember (e : LogEntity) (m : String × Json) : Option LogEntity :=
  match fieldOf m.1 with
  | none => some e
  | some f => decodeField e m.2 f

def decodeMembers : LogEntity → List (String × Json) → Option LogEntity
  | e, [] => some e
  | e, m :: ms => (decodeMember e m).bind fun e' => decodeMembers e' ms

def decodeEntity : Json → Option LogEntity
  | .obj ms => decodeMembers .zero ms
  | .null => some .zero
  | _ => none

def decodeEntities : List Json → Option (List LogEntity)
  | [] => some []
  | v :: vs => (decodeEntity v).bind fun e => (decodeEntities vs).map fun es => e :: es

/-- The decoder reads one value; whatever follows it in the file stays unread. -/
def decodeLogs (text : List Char) : Option (List LogEntity) :=
  match readFirst text with
  | some (.arr vs) => decodeEntities vs
  | some .null => some []
  | _ => none

/-! ## When an entry decodes -/

def accepts : Field → Json → Bool
  | .failed, .bool _ => true
  | .failed, .null => true
  | .failed, _ => false
  | .msg, v => fitsInterface v
  | .summary, v => fitsInterface v
  | .task, .str _ => true
  | .task, .null => true
  | .task, _ => false
  | .status, .str _ => true
  | .status, .null => true
  | .status, _ => false

def assign (e : LogEntity) : Field → Json → LogEntity
  | .task, .str s => { e with task := s }
  | .failed, .bool b => { e with failed := b }
  | .msg, v => { e with msg := interfaceOf v }
  | .summary, v => { e with summary := interfaceOf v }
  | .status, .str s => { e with status := s }
  | _, _ => e

def acceptsMember (m : String × Json) : Bool := (fieldOf m.1).all fun f => accepts f m.2

def assignMember (e : LogEntity) (m : String × Json) : LogEntity :=
  match fieldOf m.1 with
  | none => e
  | some f => assign e f m.2

theorem decodeField_eq (e : LogEntity) (v : Json) (f : Field) :
    decodeField e v f = if accepts f v then some (assign e f v) else none := by
  cases f with
  | task => cases v <;> rfl
  | failed => cases v <;> rfl
  | msg => cases v <;> rfl
  | summary => cases v <;> rfl
  | status => cases v <;> rfl

theorem decodeMember_eq (e : LogEntity) (m : String × Json) :
    decodeMember e m = if acceptsMember m then some (assignMember e m) else none := by
  rw [decodeMember, acceptsMember, assignMember]
  cases fieldOf m.1 with
  | none => rfl
  | some f => simpa using decodeField_eq e m.2 f

/-- The members decode when each one does, and each is assigned in turn. -/
theorem decodeMembers_eq_some {ms : List (String × Json)} {e e' : LogEntity} :
    decodeMembers e ms = some e' ↔ ms.all acceptsMember = true ∧ ms.foldl assignMember e = e' := by
  induction ms generalizing e with
  | nil => simp [decodeMembers]
  | cons m ms ih =>
    simp only [decodeMembers, decodeMember_eq, List.all_cons, List.foldl_cons]
    by_cases h : acceptsMember m = true
    · simp [h, ih]
    · simp [h]

/-- The task after the members: the last string under a name that folds to it. -/
def lastTask (task : String) (ms : List (String × Json)) : String :=
  ms.foldl (fun t m => match fieldOf m.1, m.2 with
    | some .task, .str s => s
    | _, _ => t) task

theorem task_assignMembers (ms : List (String × Json)) (e : LogEntity) :
    (ms.foldl assignMember e).task = lastTask e.task ms := by
  induction ms generalizing e with
  | nil => rfl
  | cons m ms ih =>
    rw [List.foldl_cons, ih]
    obtain ⟨k, v⟩ := m
    simp only [lastTask, List.foldl_cons, assignMember]
    congr 1
    cases hf : fieldOf k with
    | none => rfl
    | some f => cases f <;> cases v <;> rfl

theorem decodeEntities_eq_some {vs : List Json} {es : List LogEntity} :
    decodeEntities vs = some es ↔ List.Forall₂ (fun v e => decodeEntity v = some e) vs es := by
  induction vs generalizing es with
  | nil => simp [decodeEntities, eq_comm]
  | cons v vs ih =>
    simp only [decodeEntities, Option.bind_eq_some_iff, Option.map_eq_some_iff,
      List.forall₂_cons_left_iff]
    constructor
    · rintro ⟨e, he, es', hes, rfl⟩
      exact ⟨e, es', he, ih.mp hes, rfl⟩
    · rintro ⟨e, es', he, hes, rfl⟩
      exact ⟨e, he, es', ih.mpr hes, rfl⟩

theorem decodeEntities_concat {vs : List Json} {v : Json} {es : List LogEntity} {e : LogEntity} :
    decodeEntities (vs ++ [v]) = some (es ++ [e]) ↔
      List.Forall₂ (fun v e => decodeEntity v = some e) vs es ∧ decodeEntity v = some e := by
  rw [decodeEntities_eq_some]
  constructor
  · intro h
    have hlen := h.length_eq
    simp only [List.length_append, List.length_singleton, Nat.add_right_cancel_iff] at hlen
    have hfirst := List.forall₂_take vs.length h
    have hlast := List.forall₂_drop vs.length h
    rw [List.take_left, hlen, List.take_left] at hfirst
    rw [List.drop_left, hlen, List.drop_left] at hlast
    exact ⟨hfirst, by simpa using hlast⟩
  · rintro ⟨hfirst, hlast⟩
    exact List.rel_append hfirst (.cons hlast .nil)

end ConsoleLogEntity
