import LessTheme.Text.Basic

/-!
# Hexadecimal digits

Letters of either case are read and small letters are written.
-/

namespace LessTheme

/-- The lower-case hexadecimal digit of a number below 16. -/
def hexDigit (number : Nat) : Char :=
  if number < 10 then .ofNat (number + 48) else .ofNat (number + 87)

/-- The value of a hexadecimal digit. -/
def hexValue? (char : Char) : Option Nat :=
  if '0' ≤ char ∧ char ≤ '9' then some (char.toNat - 48)
  else if 'a' ≤ char ∧ char ≤ 'f' then some (char.toNat - 87)
  else if 'A' ≤ char ∧ char ≤ 'F' then some (char.toNat - 55)
  else none

/-- The number that some digits of a base write; a base is at most 16. -/
def digits? (base : Nat) (digits : Text) : Option Nat :=
  digits.foldlM (fun number digit =>
    ((hexValue? digit).filter (· < base)).map (number * base + ·)) 0

/-- The number that hexadecimal digits write. -/
def hexNumber? (digits : Text) : Option Nat := digits? 16 digits

end LessTheme
