import EditorCore.Text.Digits

/-!
# Numerals

A number as it is written, in the parts that data formats have in common.
Nothing is lost in it, so it may be larger than any float, and formats that
take numbers as floats refuse such a number – but not all in the same way.

One way is to take the float nearest to the number, and to refuse where
that is infinity. The other **scales**: the leading digits, as many as a
word holds, are one factor and a power of ten is the other, and each is
taken as the float nearest to it before they are multiplied. Then numbers
close to the limit may be refused that have a nearest float, and the other
way round.
-/

namespace EditorCore

/-- **A number as it is written**: a whole part, and perhaps the digits of a
fraction and the sign and digits of an exponent. -/
structure Numeral where
  negative : Bool
  whole : Nat
  fraction : Option Text
  /-- Whether the exponent is negative, and its digits. -/
  exponent : Option (Bool × Text)
  deriving DecidableEq, Repr

namespace Numeral

/-- A number with no sign, fraction or exponent. -/
def ofNat (n : Nat) : Numeral := ⟨false, n, none, none⟩

/-- The number, when it is written with no sign, fraction or exponent. -/
def toNat? (n : Numeral) : Option Nat :=
  if n.negative || n.fraction.isSome || n.exponent.isSome then none else some n.whole

@[simp] theorem toNat?_ofNat (n : Nat) : (ofNat n).toNat? = some n := rfl

/-- The power of ten that the exponent stands for. -/
def power (n : Numeral) : Int :=
  match n.exponent with
  | none => 0
  | some (negative, ds) =>
    let e : Int := Nat.ofDigitChars 10 ds 0
    if negative then -e else e

/-! ## Floats of double precision -/

/-- The binary digits of a double-precision float. -/
def doubleDigits : Nat := 53

/-- **The float nearest to a natural number**, of two that are equally near
the one whose last digit is even; its own value when it has no more digits
than a float. -/
def nearestDouble (n : Nat) : Nat :=
  let unit := Nat.pow 2 (n.log2 + 1 - doubleDigits)
  let steps := n / unit
  let rest := n % unit
  if unit < 2 * rest ∨ 2 * rest = unit ∧ steps % 2 = 1 then (steps + 1) * unit
  else steps * unit

/-- The least number whose nearest float is infinity. -/
def doubleLimit : Nat := Nat.pow 2 1024 - Nat.pow 2 970

/-- **The nearest float is infinity.** The number is its digits times a power
of ten; only near the limit do the digits matter, and there the power is
small enough to be written out. -/
def exceedsDouble (n : Numeral) : Bool :=
  let fraction := n.fraction.getD []
  let digits := Nat.ofDigitChars 10 fraction n.whole
  let shift := n.power - fraction.length
  let magnitude := shift + (Nat.toDigits 10 digits).length
  if digits = 0 || magnitude ≤ 308 then false
  else if 310 ≤ magnitude then true
  else doubleLimit * Nat.pow 10 (-shift).toNat ≤ digits * Nat.pow 10 shift.toNat

/-! ## Scaling -/

/-- **The digits that fit a word**: the number of as many leading digits,
after those of `n`, as stay below 2⁶⁴, and the digits left over. -/
def leading (n : Nat) : Text → Nat × Text
  | [] => (n, [])
  | c :: ds =>
    let m := Nat.ofDigitChars 10 [c] n
    if m < UInt64.size then leading m ds else (n, c :: ds)

/-- The greatest power of ten that is a float. -/
def greatestPower : Int := 308

/-- **The scaled number is infinite.** Digits of the whole part that do not
fit count as powers of ten, and digits of the fraction that do not fit are
left out. -/
def exceedsScaled (n : Numeral) : Bool :=
  let fraction := n.fraction.getD []
  let (digits, dropped) := leading 0 (Text.ofNat n.whole)
  let (digits, unread) := leading digits fraction
  let shift := n.power + dropped.length + unread.length - fraction.length
  if digits = 0 || shift < 0 then false
  else if greatestPower < shift then true
  else doubleLimit ≤ nearestDouble digits * nearestDouble (Nat.pow 10 shift.toNat)

end Numeral

end EditorCore
