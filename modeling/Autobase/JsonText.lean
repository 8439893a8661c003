import Mathlib.Algebra.Group.Nat.Defs
import Mathlib.Data.List.Basic
import Mathlib.Data.Int.Basic

/-! # JSON texts

A value keeps every number as it is written, so that no rounding takes place before a
reader asks for one. The reader follows the RFC 8259 grammar on characters and returns the
unread rest. The writer is generic in its layout: blanks between tokens and the escaping of
characters, which has to be undone by the reader. -/
namespace JsonText

abbrev Digit := Fin 10

/-- The integer part of a number has no leading zero. -/
inductive Whole where
  | zero
  | digits (lead : Fin 9) (rest : List Digit)
  deriving DecidableEq, Repr

structure Exponent where
  upper : Bool
  sign : Option Bool
  lead : Digit
  rest : List Digit
  deriving DecidableEq, Repr

structure Number where
  negative : Bool
  whole : Whole
  fraction : Option (Digit × List Digit)
  exponent : Option Exponent
  deriving DecidableEq, Repr

inductive Json where
  | null
  | bool (b : Bool)
  | num (x : Number)
  | str (s : String)
  | arr (xs : List Json)
  | obj (kvs : List (String × Json))
  deriving Repr, Inhabited

def digitsValue (ds : List Digit) : ℕ := ds.foldl (fun n d => 10 * n + d.val) 0

def Whole.digitList : Whole → List Digit
  | .zero => [0]
  | .digits lead rest => lead.succ :: rest

def Number.mantissa (x : Number) : ℕ :=
  digitsValue (x.whole.digitList ++ (x.fraction.map fun p => p.1 :: p.2).getD [])

def Number.scale (x : Number) : ℤ :=
  let e : ℤ := match x.exponent with
    | none => 0
    | some e => if e.sign = some true then -(digitsValue (e.lead :: e.rest) : ℤ)
      else digitsValue (e.lead :: e.rest)
  e - ((x.fraction.map fun p => p.2.length + 1).getD 0 : ℕ)

/-- The least magnitude that rounds to infinity in a double. -/
def float64Limit : ℕ := 2 ^ 1024 - 2 ^ 970

def Number.fitsFloat64 (x : Number) : Bool :=
  if 0 ≤ x.scale then decide (x.mantissa * 10 ^ x.scale.toNat < float64Limit)
  else decide (x.mantissa < float64Limit * 10 ^ (-x.scale).toNat)

/-- The decimal digits of `n`, most significant first; `n + 1` is fuel enough. -/
def decimalDigits : ℕ → ℕ → List Digit
  | 0, _ => []
  | fuel + 1, n =>
    if n < 10 then [Fin.ofNat 10 n] else decimalDigits fuel (n / 10) ++ [Fin.ofNat 10 (n % 10)]

def Number.ofNat (n : ℕ) : Number :=
  match decimalDigits (n + 1) n with
  | [] => ⟨false, .zero, none, none⟩
  | d :: ds =>
    if h : d = 0 then ⟨false, .zero, none, none⟩ else ⟨false, .digits (d.pred h) ds, none, none⟩

/-! ## Reading -/

def isBlank (c : Char) : Bool := c = ' ' || c = '\t' || c = '\n' || c = '\r'

def skipBlanks (cs : List Char) : List Char := cs.dropWhile isBlank

def digit? (c : Char) : Option Digit :=
  if h : 48 ≤ c.toNat ∧ c.toNat < 58 then some ⟨c.toNat - 48, by omega⟩ else none

def readDigits : List Char → List Digit × List Char
  | [] => ([], [])
  | c :: cs =>
    match digit? c with
    | some d => (d :: (readDigits cs).1, (readDigits cs).2)
    | none => ([], c :: cs)

def readWhole : List Char → Option (Whole × List Char)
  | [] => none
  | c :: cs =>
    match digit? c with
    | none => none
    | some d =>
      if h : d = 0 then some (.zero, cs)
      else some (.digits (d.pred h) (readDigits cs).1, (readDigits cs).2)

def readFraction : List Char → Option (Option (Digit × List Digit) × List Char)
  | '.' :: cs =>
    match readDigits cs with
    | (d :: ds, r) => some (some (d, ds), r)
    | ([], _) => none
  | cs => some (none, cs)

def readSign : List Char → Option Bool × List Char
  | '+' :: cs => (some false, cs)
  | '-' :: cs => (some true, cs)
  | cs => (none, cs)

def readExponentDigits (upper : Bool) (cs : List Char) : Option (Option Exponent × List Char) :=
  match readDigits (readSign cs).2 with
  | (d :: ds, r) => some (some ⟨upper, (readSign cs).1, d, ds⟩, r)
  | ([], _) => none

def readExponent : List Char → Option (Option Exponent × List Char)
  | 'e' :: cs => readExponentDigits false cs
  | 'E' :: cs => readExponentDigits true cs
  | cs => some (none, cs)

def readMinus : List Char → Bool × List Char
  | '-' :: cs => (true, cs)
  | cs => (false, cs)

def readNumber (cs : List Char) : Option (Number × List Char) :=
  (readWhole (readMinus cs).2).bind fun w =>
    (readFraction w.2).bind fun f =>
      (readExponent f.2).map fun e => (⟨(readMinus cs).1, w.1, f.1, e.1⟩, e.2)

def hexDigit? (c : Char) : Option ℕ :=
  if 48 ≤ c.toNat ∧ c.toNat < 58 then some (c.toNat - 48)
  else if 97 ≤ c.toNat ∧ c.toNat < 103 then some (c.toNat - 87)
  else if 65 ≤ c.toNat ∧ c.toNat < 71 then some (c.toNat - 55)
  else none

def readHex4 : List Char → Option (ℕ × List Char)
  | a :: b :: c :: d :: r =>
    match hexDigit? a, hexDigit? b, hexDigit? c, hexDigit? d with
    | some a, some b, some c, some d => some (4096 * a + 256 * b + 16 * c + d, r)
    | _, _, _, _ => none
  | _ => none

def isHighSurrogate (n : ℕ) : Bool := decide (0xd800 ≤ n ∧ n < 0xdc00)
def isLowSurrogate (n : ℕ) : Bool := decide (0xdc00 ≤ n ∧ n < 0xe000)

def replacementChar : Char := Char.ofNat 0xfffd

/-- The escape `\u` with its four digits; a surrogate pair stands for one character and a
lone surrogate is read as the replacement character. -/
def readUnicode (cs : List Char) : Option (Char × List Char) :=
  match readHex4 cs with
  | none => none
  | some (hi, r) =>
    if isHighSurrogate hi then
      match r with
      | '\\' :: 'u' :: r' =>
        match readHex4 r' with
        | none => none
        | some (lo, r'') =>
          if isLowSurrogate lo then
            some (Char.ofNat (0x10000 + (hi - 0xd800) * 0x400 + (lo - 0xdc00)), r'')
          else some (replacementChar, r)
      | _ => some (replacementChar, r)
    else if isLowSurrogate hi then some (replacementChar, r)
    else some (Char.ofNat hi, r)

def unescape : Char → Option Char
  | '"' => some '"'
  | '\\' => some '\\'
  | '/' => some '/'
  | 'b' => some (Char.ofNat 8)
  | 'f' => some (Char.ofNat 12)
  | 'n' => some '\n'
  | 'r' => some '\r'
  | 't' => some '\t'
  | _ => none

/-- One character of a string literal; the closing quote is none. -/
def readChar : List Char → Option (Char × List Char)
  | [] => none
  | '\\' :: 'u' :: cs => readUnicode cs
  | '\\' :: c :: cs => (unescape c).map fun u => (u, cs)
  | c :: cs => if c = '"' ∨ c = '\\' ∨ c.toNat < 32 then none else some (c, cs)

def readString : ℕ → List Char → Option (List Char × List Char)
  | 0, _ => none
  | _ + 1, '"' :: cs => some ([], cs)
  | n + 1, cs =>
    match readChar cs with
    | none => none
    | some (c, r) => (readString n r).map fun p => (c :: p.1, p.2)

mutual
def readValue : ℕ → List Char → Option (Json × List Char)
  | 0, _ => none
  | n + 1, cs =>
    match skipBlanks cs with
    | 'n' :: 'u' :: 'l' :: 'l' :: r => some (.null, r)
    | 't' :: 'r' :: 'u' :: 'e' :: r => some (.bool true, r)
    | 'f' :: 'a' :: 'l' :: 's' :: 'e' :: r => some (.bool false, r)
    | '"' :: r => (readString (r.length + 1) r).map fun p => (.str (String.ofList p.1), p.2)
    | '[' :: r =>
      match skipBlanks r with
      | ']' :: r' => some (.arr [], r')
      | r' => (readElements n r').map fun p => (.arr p.1, p.2)
    | '{' :: r =>
      match skipBlanks r with
      | '}' :: r' => some (.obj [], r')
      | r' => (readMembers n r').map fun p => (.obj p.1, p.2)
    | r => (readNumber r).map fun p => (.num p.1, p.2)

/-- One or more values up to and including the closing bracket. -/
def readElements : ℕ → List Char → Option (List Json × List Char)
  | 0, _ => none
  | n + 1, cs =>
    match readValue n cs with
    | none => none
    | some (v, r) =>
      match skipBlanks r with
      | ',' :: r' => (readElements n r').map fun p => (v :: p.1, p.2)
      | ']' :: r' => some ([v], r')
      | _ => none

def readMembers : ℕ → List Char → Option (List (String × Json) × List Char)
  | 0, _ => none
  | n + 1, cs =>
    match skipBlanks cs with
    | '"' :: r =>
      match readString (r.length + 1) r with
      | none => none
      | some (k, r) =>
        match skipBlanks r with
        | ':' :: r =>
          match readValue n r with
          | none => none
          | some (v, r) =>
            match skipBlanks r with
            | ',' :: r' =>
              (readMembers n r').map fun p => ((String.ofList k, v) :: p.1, p.2)
            | '}' :: r' => some ([(String.ofList k, v)], r')
            | _ => none
        | _ => none
    | _ => none
end

/-- The first value of a stream; what follows it stays unread. -/
def readFirst (cs : List Char) : Option Json := (readValue (cs.length + 1) cs).map Prod.fst

/-- A whole text: one value and blanks around it. -/
def parse (cs : List Char) : Option Json :=
  match readValue (cs.length + 1) cs with
  | some (v, r) => if skipBlanks r = [] then some v else none
  | none => none

/-! ## Writing -/

def digitChar (d : Digit) : Char := Char.ofNat (48 + d.val)

def Whole.text (w : Whole) : List Char := w.digitList.map digitChar

def signText : Option Bool → List Char
  | none => []
  | some false => ['+']
  | some true => ['-']

def Exponent.text (e : Exponent) : List Char :=
  (if e.upper then 'E' else 'e') :: (signText e.sign ++ (e.lead :: e.rest).map digitChar)

def fractionText : Option (Digit × List Digit) → List Char
  | none => []
  | some (d, ds) => '.' :: (d :: ds).map digitChar

def Number.text (x : Number) : List Char :=
  (if x.negative then ['-'] else []) ++ (x.whole.text ++
    (fractionText x.fraction ++ (x.exponent.map Exponent.text).getD []))

/-- What a writer may choose. Whatever it chooses is read back: blanks are blanks and every
escaped character is read as itself. -/
structure Layout where
  gap : ℕ → List Char
  afterColon : List Char
  escape : Char → List Char
  gap_blank : ∀ n, ∀ c ∈ gap n, isBlank c = true
  colon_blank : ∀ c ∈ afterColon, isBlank c = true
  escape_reads : ∀ c rest, readChar (escape c ++ rest) = some (c, rest)

def joined (sep : List Char) : List (List Char) → List Char
  | [] => []
  | [t] => t
  | t :: ts => t ++ (sep ++ joined sep ts)

def bracketed (L : Layout) (depth : ℕ) (opening closing : Char) (texts : List (List Char)) :
    List Char :=
  if texts = [] then [opening, closing]
  else opening :: (L.gap (depth + 1) ++
    (joined (',' :: L.gap (depth + 1)) texts ++ (L.gap depth ++ [closing])))

def quoted (L : Layout) (s : String) : List Char := '"' :: (s.toList.flatMap L.escape ++ ['"'])

mutual
def render (L : Layout) (depth : ℕ) : Json → List Char
  | .null => ['n', 'u', 'l', 'l']
  | .bool true => ['t', 'r', 'u', 'e']
  | .bool false => ['f', 'a', 'l', 's', 'e']
  | .num x => x.text
  | .str s => quoted L s
  | .arr xs => bracketed L depth '[' ']' (renderElements L (depth + 1) xs)
  | .obj kvs => bracketed L depth '{' '}' (renderMembers L (depth + 1) kvs)

def renderElements (L : Layout) (depth : ℕ) : List Json → List (List Char)
  | [] => []
  | x :: xs => render L depth x :: renderElements L depth xs

def renderMembers (L : Layout) (depth : ℕ) : List (String × Json) → List (List Char)
  | [] => []
  | (k, v) :: kvs =>
    (quoted L k ++ ':' :: (L.afterColon ++ render L depth v)) :: renderMembers L depth kvs
end

end JsonText
