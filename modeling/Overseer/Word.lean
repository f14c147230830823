/-!
# Machine words

How many numbers there are in words. An unsigned word holds those from zero on; a signed one holds half
of them below zero.
-/
namespace Overseer.Word

def count32 : Nat := 4294967296

def count64 : Nat := 18446744073709551616

def half32 : Nat := 2147483648

def half64 : Nat := 9223372036854775808

def isSigned64 (n : Int) : Bool := -(half64 : Int) ≤ n ∧ n < half64

end Overseer.Word
