import EditorCore.Text.Columns

/-!
# Digits

Numbers as runs of digits, in any base up to sixteen. A run may be longer
than any word: what fits where is for the reader of the number to decide.
-/

namespace EditorCore

/-- The value of a hexadecimal digit of either case. -/
def hexValue? (c : Char) : Option Nat :=
  if c.isDigit then some (c.toNat - '0'.toNat)
  else if 'a' ≤ c && c ≤ 'f' then some (c.toNat - 'a'.toNat + 10)
  else if 'A' ≤ c && c ≤ 'F' then some (c.toNat - 'A'.toNat + 10)
  else none

/-- The value of a digit in a base of at most sixteen. -/
def digitValue? (base : Nat) (c : Char) : Option Nat :=
  (hexValue? c).filter (· < base)

/-- The number that a run of digits writes; `none` when one of them is no
digit of the base. -/
def Text.digits? (base : Nat) (t : Text) : Option Nat :=
  t.foldlM (fun n c => (digitValue? base c).map (base * n + ·)) 0

/-- Parts a number from its sign; `true` when it is negative. -/
def Text.splitSign : Text → Bool × Text
  | '+' :: t => (false, t)
  | '-' :: t => (true, t)
  | t => (false, t)

/-- The decimal digits of a number, without leading zeros. -/
def Text.ofNat (n : Nat) : Text := Nat.toDigits 10 n

/-- The decimal digits of a word. -/
def Text.ofWord (n : UInt32) : Text := Text.ofNat n.toNat

end EditorCore
