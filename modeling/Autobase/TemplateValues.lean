import Mathlib.Data.Int.Notation

/-! # Values of templates

A value is a number or a text; the int filter takes a text for a number as `int` says. -/
namespace TemplateValues

abbrev Text := List Char

theorem lawfulBEq_text : LawfulBEq Text := inferInstance

inductive Value where
  | number (n : ℤ)
  | text (t : Text)
  deriving DecidableEq

def toInt (int : Text → ℤ) : Value → ℤ
  | .number n => n
  | .text t => int t

def falsy : Value → Bool
  | .number n => n == 0
  | .text t => t == []

/-- `default(other, true)` also replaces what is false. -/
def defaultTrue (other : ℤ) : Option Value → Value
  | none => .number other
  | some v => if falsy v then .number other else v

end TemplateValues
