/-!
# Machine words

One past the largest number of each width that a setting, a port or a number in a text may have.
-/

namespace AppletHost.Number

/-- One past the largest number of 16 bits. -/
def limit16 : Nat := 0x10000

/-- One past the largest number of 32 bits. -/
def limit32 : Nat := 0x100000000

/-- One past the largest number of 64 bits. -/
def limit64 : Nat := 0x10000000000000000

/-- One past the largest signed integer of 64 bits; the smallest is as far below zero. -/
def signedLimit : Nat := 0x8000000000000000

/-- An integer that fits 64 bits with a sign. -/
def isSigned64 (n : Int) : Bool := -(signedLimit : Int) ≤ n && n < signedLimit

end AppletHost.Number
