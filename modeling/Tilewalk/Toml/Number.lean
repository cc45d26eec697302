import Tilewalk.Number.Binary64
import Tilewalk.Toml.Value

/-! Number literals. Digits may be grouped by single underscores; whole numbers have 64 bits and a
sign; a literal with a point or an exponent is the nearest 64-bit floating-point number. -/

set_option autoImplicit false

namespace Tilewalk.Toml.Number

def digit? (base : Nat) (c : Char) : Option Nat :=
  let d? :=
    if '0' ≤ c ∧ c ≤ '9' then some (c.toNat - '0'.toNat)
    else if 'a' ≤ c ∧ c ≤ 'f' then some (c.toNat - 'a'.toNat + 10)
    else if 'A' ≤ c ∧ c ≤ 'F' then some (c.toNat - 'A'.toNat + 10)
    else none
  d?.filter (· < base)

/-- The digits of a literal in which every underscore stands between two digits. `after` says whether
a digit was just read. -/
def digits? (base : Nat) (after : Bool) : List Char → Option (List Nat)
  | [] => if after then some [] else none
  | c :: rest =>
    if c = '_' then if after then digits? base false rest else none
    else do
      let d ← digit? base c
      let ds ← digits? base true rest
      return d :: ds

def ofDigits (base : Nat) (ds : List Nat) : Nat :=
  ds.foldl (fun n d => n * base + d) 0

def decimal? (cs : List Char) : Option (List Nat) :=
  match cs with
  | '0' :: _ :: _ => none
  | _ => digits? 10 false cs

/-- The sign of a literal, true for minus, and what follows it. -/
def sign : List Char → Bool × List Char
  | '-' :: rest => (true, rest)
  | '+' :: rest => (false, rest)
  | cs => (false, cs)

def fit (text : List Char) (n : Int) : Except Error Value :=
  if Int64.minValue.toInt ≤ n ∧ n ≤ Int64.maxValue.toInt then .ok (.integer n)
  else .error (.outOfRange (String.ofList text))

def exponent? : List Char → Option Int
  | [] => some 0
  | c :: rest =>
    if c = 'e' ∨ c = 'E' then do
      let (negative, rest) := sign rest
      let ds ← digits? 10 false rest
      let e : Int := ofDigits 10 ds
      return if negative then -e else e
    else none

def fraction? : List Char → Option (List Nat × List Char)
  | '.' :: rest => do
    let (frac, rest) := rest.span fun c => c.isDigit || c = '_'
    let ds ← digits? 10 false frac
    return (ds, rest)
  | cs => some ([], cs)

/-- A number with a point or an exponent. One that is too large is refused when it is positive and is
minus infinity when it is negative. -/
def float? (negative : Bool) (cs : List Char) : Option (Except Error Value) := do
  let (whole, rest) := cs.span fun c => c.isDigit || c = '_'
  let ds ← decimal? whole
  let (frac, rest) ← fraction? rest
  let e ← exponent? rest
  let x := Binary64.ofDecimal (ofDigits 10 (ds ++ frac)) (e - frac.length)
  if negative then return .ok (.float (-x))
  else if x.isInf then return .error (.outOfRange (String.ofList cs))
  else return .ok (.float x)

def based? (text : List Char) : Option (Except Error Value) :=
  match text with
  | '0' :: 'x' :: rest => (digits? 16 false rest).map fun ds => fit text (ofDigits 16 ds)
  | '0' :: 'o' :: rest => (digits? 8 false rest).map fun ds => fit text (ofDigits 8 ds)
  | '0' :: 'b' :: rest => (digits? 2 false rest).map fun ds => fit text (ofDigits 2 ds)
  | _ => none

def integer? (text : List Char) (negative : Bool) (cs : List Char) : Option (Except Error Value) :=
  (decimal? cs).map fun ds =>
    let n : Int := ofDigits 10 ds
    fit text (if negative then -n else n)

def special? (negative : Bool) (cs : List Char) : Option Value :=
  if cs = ['i', 'n', 'f'] then
    some (.float (Float.ofBits (if negative then 0xfff0000000000000 else 0x7ff0000000000000)))
  else if cs = ['n', 'a', 'n'] then some (.float (Float.ofBits 0x7ff8000000000000))
  else none

def parse (text : List Char) : Except Error Value :=
  let (negative, cs) := sign text
  match special? negative cs with
  | some v => .ok v
  | none =>
    match based? text <|> integer? text negative cs <|> float? negative cs with
    | some v => v
    | none => .error (.badNumber (String.ofList text))

end Tilewalk.Toml.Number
