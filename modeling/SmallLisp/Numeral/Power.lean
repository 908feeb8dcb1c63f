/-!
Powers of the two bases of numerals.
-/

namespace SmallLisp.Numeral

def twoPow (n : Nat) : Nat := Nat.pow 2 n

def tenPow (n : Nat) : Nat := Nat.pow 10 n

end SmallLisp.Numeral
