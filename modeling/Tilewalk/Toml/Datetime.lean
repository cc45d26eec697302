import Tilewalk.Toml.Value

/-! Date and time literals, which are checked against the calendar and kept as text. -/

set_option autoImplicit false

namespace Tilewalk.Toml.Datetime

def number? (n : Nat) (cs : List Char) : Option (Nat × List Char) :=
  let ds := cs.take n
  if ds.length = n ∧ ds.all Char.isDigit then
    some (ds.foldl (fun v c => v * 10 + (c.toNat - '0'.toNat)) 0, cs.drop n)
  else none

def expect? (c : Char) : List Char → Option (List Char)
  | d :: rest => if d = c then some rest else none
  | [] => none

def isLeapYear (year : Nat) : Bool :=
  year % 4 = 0 && (year % 100 ≠ 0 || year % 400 = 0)

def daysIn (year month : Nat) : Nat :=
  if month = 2 then if isLeapYear year then 29 else 28
  else if month ∈ [4, 6, 9, 11] then 30
  else 31

def date? (cs : List Char) : Option (List Char) := do
  let (year, cs) ← number? 4 cs
  let cs ← expect? '-' cs
  let (month, cs) ← number? 2 cs
  let cs ← expect? '-' cs
  let (day, cs) ← number? 2 cs
  if 1 ≤ month ∧ month ≤ 12 ∧ 1 ≤ day ∧ day ≤ daysIn year month then some cs else none

def hourMinute? (cs : List Char) : Option (List Char) := do
  let (hour, cs) ← number? 2 cs
  let cs ← expect? ':' cs
  let (minute, cs) ← number? 2 cs
  if hour ≤ 23 ∧ minute ≤ 59 then some cs else none

def fraction? : List Char → Option (List Char)
  | '.' :: rest =>
    match rest with
    | c :: _ => if c.isDigit then some (rest.dropWhile Char.isDigit) else none
    | [] => none
  | cs => some cs

/-- What follows a time of the day; a minute may have a leap second. -/
def time? (cs : List Char) : Option (List Char) := do
  let cs ← hourMinute? cs
  let cs ← expect? ':' cs
  let (second, cs) ← number? 2 cs
  if second ≤ 60 then fraction? cs else none

def isOffset : List Char → Bool
  | [] => true
  | c :: rest =>
    if c = 'Z' || c = 'z' then rest.isEmpty
    else if c = '+' || c = '-' then hourMinute? rest = some []
    else false

def isDayTime : List Char → Bool
  | [] => true
  | c :: rest =>
    (c = 'T' || c = 't' || c = ' ') &&
      match time? rest with
      | some rest => isOffset rest
      | none => false

def isValid (text : List Char) : Bool :=
  match date? text with
  | some rest => isDayTime rest
  | none => time? text = some []

/-- Whether a literal begins like a date or a time: four digits and a hyphen, or two and a colon. -/
def looksLike (text : List Char) : Bool :=
  ((number? 4 text).bind fun (_, rest) => expect? '-' rest).isSome ||
    ((number? 2 text).bind fun (_, rest) => expect? ':' rest).isSome

def parse (text : List Char) : Except Error Value :=
  if isValid text then .ok (.datetime (String.ofList text))
  else .error (.badDate (String.ofList text))

end Tilewalk.Toml.Datetime
