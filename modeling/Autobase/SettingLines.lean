import Mathlib.Data.List.Basic

/-! # Lines that set variables

A file of assignments is read from the top, so the last line that sets a variable counts. An edit
puts a new line in the place of the last one that sets the same variable, or else at the end. -/
namespace SettingLines

variable {κ ν : Type*} [DecidableEq κ]

/-- What a reader takes for the value of a variable. -/
def setting (k : κ) : List (κ × ν) → Option ν
  | [] => none
  | t :: ts => (setting k ts).or (if t.1 = k then some t.2 else none)

def replaceLast (s : κ × ν) : List (κ × ν) → Option (List (κ × ν))
  | [] => none
  | t :: ts =>
    match replaceLast s ts with
    | some us => some (t :: us)
    | none => if t.1 = s.1 then some (s :: ts) else none

/-- `lineinfile` with the pattern of the variable. -/
def lineinfile (s : κ × ν) (lines : List (κ × ν)) : List (κ × ν) :=
  (replaceLast s lines).getD (lines ++ [s])

variable {k : κ} {s : κ × ν} {lines us : List (κ × ν)}

theorem setting_append (k : κ) (ts us : List (κ × ν)) :
    setting k (ts ++ us) = (setting k us).or (setting k ts) := by
  induction ts with
  | nil => exact (Option.or_none).symm
  | cons t ts ih => rw [List.cons_append, setting, ih, setting, Option.or_assoc]

theorem setting_singleton (k : κ) (s : κ × ν) :
    setting k [s] = if s.1 = k then some s.2 else none := rfl

/-- Nothing is replaced only where nothing is set. -/
theorem setting_of_replaceLast_none (h : replaceLast s lines = none) :
    setting s.1 lines = none := by
  induction lines with
  | nil => rfl
  | cons t ts ih =>
    rw [replaceLast] at h
    split at h
    · cases h
    · rename_i hrest
      split at h
      · cases h
      · rename_i hkey
        rw [setting, ih hrest, if_neg hkey]
        rfl

theorem setting_replaceLast (h : replaceLast s lines = some us) :
    setting k us = if s.1 = k then some s.2 else setting k lines := by
  induction lines generalizing us with
  | nil => cases h
  | cons t ts ih =>
    rw [replaceLast] at h
    split at h
    · rename_i ws hrest
      obtain rfl := Option.some.inj h
      rw [setting, ih hrest, setting]
      split <;> rfl
    · rename_i hrest
      split at h
      · rename_i hkey
        obtain rfl := Option.some.inj h
        have hnone : setting s.1 ts = none := setting_of_replaceLast_none hrest
        rw [setting, setting, hkey]
        split
        · rename_i hk
          rw [← hk, hnone]
          rfl
        · rfl
      · cases h

theorem setting_lineinfile (k : κ) (s : κ × ν) (lines : List (κ × ν)) :
    setting k (lineinfile s lines) = if s.1 = k then some s.2 else setting k lines := by
  rw [lineinfile]
  cases h : replaceLast s lines with
  | some us => exact setting_replaceLast h
  | none =>
    rw [Option.getD_none, setting_append, setting_singleton]
    split <;> rfl

/-- Of several edits the last one for the variable counts. -/
theorem setting_edits (k : κ) (edits lines : List (κ × ν)) :
    setting k (edits.foldl (fun lines s => lineinfile s lines) lines) =
      (setting k edits).or (setting k lines) := by
  induction edits generalizing lines with
  | nil => rfl
  | cons s edits ih =>
    rw [List.foldl_cons, ih, setting_lineinfile, setting]
    split
    · rw [Option.or_assoc]
      rfl
    · rw [Option.or_none]

end SettingLines
