import EditorCore.Text.Digits
import EditorCore.Toml.Value

/-!
# TOML scalars

Values written without quotes: booleans, integers in four bases, floats,
and dates and times. Digits may be grouped by underscores, each between two
digits or between the sign and the first of them. A decimal whole part has
no leading zero unless an underscore joins it to its sign. A sign goes with
decimal numbers only, and a float has a fraction or an exponent or is one of
the two that have names.

**A number may turn out to have no value.** A base alone is an integer
already, and of a decimal integer it is settled here how its groups begin
and end, but not what is in the groups after the first. Such an integer may
stand where it is passed over; nothing can take it in.

Dates and times must exist: months have their days, hours end at 23 and
minutes at 59, and a minute may have a leap second. Seconds are optional.
-/

namespace EditorCore

namespace Toml

/-! ## Numbers -/

/-- A digit of any base. -/
def isDigit (c : Char) : Bool := (hexValue? c).isSome

/-- A number without the underscores that group its digits; an underscore
stands between two digits. -/
def ungrouped? : Text → Option Text
  | [] => some []
  | '_' :: _ => none
  | c :: '_' :: t =>
    if isDigit c && t.head?.any isDigit then (ungrouped? t).map (c :: ·) else none
  | c :: t => (ungrouped? t).map (c :: ·)

/-- A number in groups of digits; at least one digit. -/
def grouped? (base : Nat) (t : Text) : Option Nat :=
  if t.isEmpty then none else (ungrouped? t).bind (Text.digits? base)

/-- **What is before the digits of a decimal number**: whether it is negative,
and whether an underscore joins the sign to the digits. -/
def splitLead (t : Text) : Bool × Bool × Text :=
  let (negative, digits) := t.splitSign
  match digits with
  | '_' :: ds => if digits.length < t.length then (negative, true, ds) else (negative, false, digits)
  | _ => (negative, false, digits)

/-- A decimal whole part: grouped digits, and no leading zero unless they are
joined to a sign. -/
def whole? (joined : Bool) (t : Text) : Option Nat :=
  match joined, t with
  | false, '0' :: _ :: _ => none
  | _, t => grouped? 10 t

/-- An integer after the mark of its base. -/
def based? (base : Nat) (t : Text) : Option Toml :=
  if t.isEmpty then some (.integer none) else (grouped? base t).map fun n => .integer (some n)

/-- An integer without the mark of a base. -/
def decimal? (t : Text) : Option Toml := do
  let (negative, joined, t) := splitLead t
  let first := t.takeWhile Char.isDigit
  guard (if joined then t.head?.any isDigit
    else first ≠ [] ∧ (t = first ∨ (t.drop first.length).head? = some '_')
      ∧ (t = ['0'] ∨ t.head? ≠ some '0'))
  guard (t.all fun c => c != '.' && c != 'e' && c != 'E')
  let digits ← ungrouped? t
  return .integer ((Text.digits? 10 digits).map fun n => if negative then -n else n)

/-- **Reads an integer.** -/
def integer? : Text → Option Toml
  | '0' :: 'x' :: t => based? 16 t
  | '0' :: 'o' :: t => based? 8 t
  | '0' :: 'b' :: t => based? 2 t
  | t => decimal? t

/-- Groups of decimal digits that are kept as digits. -/
def groupedDigits? (t : Text) : Option Text :=
  (grouped? 10 t).bind fun _ => ungrouped? t

/-- **Reads a float.** -/
def float? (t : Text) : Option Toml := do
  let (_, name) := t.splitSign
  if name = "inf".toList ∨ name = "nan".toList then return .float none
  let (negative, joined, t) := splitLead t
  let mantissa := t.takeWhile fun c => c != 'e' && c != 'E'
  let power := t.drop mantissa.length
  let integral := mantissa.takeWhile (· != '.')
  let point := mantissa.drop integral.length
  guard (power ≠ [] ∨ point ≠ [])
  let whole ← whole? joined integral
  let fraction ← if point.isEmpty then pure none else (groupedDigits? point.tail).map some
  let exponent ← if power.isEmpty then pure none else
    let (negative, ds) := Text.splitSign power.tail
    (groupedDigits? ds).map fun ds => some (negative, ds)
  return .float (some ⟨negative, whole, fraction, exponent⟩)

/-! ## Dates and times -/

/-- A number of exactly `count` digits at the start of a text, and the rest. -/
def digitsOf? (count : Nat) (t : Text) : Option (Nat × Text) :=
  let ds := t.take count
  if ds.length = count ∧ ds.all Char.isDigit then some (Nat.ofDigitChars 10 ds 0, t.drop count)
  else none

/-- The text after a character that it starts with. -/
def after? (p : Char → Bool) : Text → Option Text
  | c :: t => if p c then some t else none
  | [] => none

/-- The days of a month. -/
def daysIn (year month : Nat) : Nat :=
  if month = 2 then
    if year % 4 = 0 ∧ (year % 100 ≠ 0 ∨ year % 400 = 0) then 29 else 28
  else if [4, 6, 9, 11].contains month then 30
  else 31

/-- Passes over a date. -/
def date? (t : Text) : Option Text := do
  let (year, t) ← digitsOf? 4 t
  let (month, t) ← digitsOf? 2 (← after? (· == '-') t)
  let (day, t) ← digitsOf? 2 (← after? (· == '-') t)
  guard (1 ≤ month ∧ month ≤ 12 ∧ 1 ≤ day ∧ day ≤ daysIn year month)
  return t

/-- Passes over the seconds of a time and their fraction, where there are
any. -/
def seconds? (t : Text) : Option Text :=
  match t with
  | ':' :: t => do
    let (second, t) ← digitsOf? 2 t
    guard (second ≤ 60)
    match t with
    | '.' :: t =>
      guard (t.head?.any Char.isDigit)
      return t.dropWhile Char.isDigit
    | _ => return t
  | _ => some t

/-- Passes over a time. -/
def time? (t : Text) : Option Text := do
  let (hour, t) ← digitsOf? 2 t
  let (minute, t) ← digitsOf? 2 (← after? (· == ':') t)
  guard (hour ≤ 23 ∧ minute ≤ 59)
  seconds? t

/-- Passes over the distance from universal time, where it is given. -/
def zone? (t : Text) : Option Text :=
  match t with
  | [] => some []
  | c :: t =>
    if c = 'Z' ∨ c = 'z' then some t
    else if c = '+' ∨ c = '-' then do
      let (hour, t) ← digitsOf? 2 t
      let (minute, t) ← digitsOf? 2 (← after? (· == ':') t)
      guard (hour ≤ 23 ∧ minute ≤ 59)
      return t
    else none

/-- A text that is one date and nothing else. -/
def isDate (t : Text) : Bool := date? t == some []

/-- **A date, a time, or both**; both may be placed against universal time. -/
def isDateTime (t : Text) : Bool :=
  isDate t || time? t == some [] ||
    (do zone? (← time? (← after? (fun c => c == 'T' || c == 't' || c == ' ') (← date? t))))
      == some []

/-! ## Scalars -/

/-- **The value that is written without quotes.** -/
def scalar? (t : Text) : Option Toml :=
  if t = "true".toList then some (.boolean true)
  else if t = "false".toList then some (.boolean false)
  else if isDateTime t then some (.dateTime t)
  else (integer? t).orElse fun _ => float? t

end Toml

end EditorCore
