/-! Powers and sums of natural numbers. -/
namespace BindingRegistry

def twoTo (n : Nat) : Nat := Nat.pow 2 n

def tenTo (n : Nat) : Nat := Nat.pow 10 n

theorem twoTo_pos (n : Nat) : 0 < twoTo n := Nat.two_pow_pos n
theorem twoTo_succ (n : Nat) : twoTo (n + 1) = twoTo n * 2 := rfl
theorem twoTo_add (m n : Nat) : twoTo (m + n) = twoTo m * twoTo n := Nat.pow_add 2 m n
theorem tenTo_pos (n : Nat) : 0 < tenTo n := Nat.pow_pos (by decide)
theorem tenTo_succ (n : Nat) : tenTo (n + 1) = tenTo n * 10 := rfl
theorem tenTo_add (m n : Nat) : tenTo (m + n) = tenTo m * tenTo n := Nat.pow_add 10 m n

/-- The sum of `f` over a list. -/
def sumBy (f : α → Nat) : List α → Nat
  | [] => 0
  | a :: as => f a + sumBy f as

end BindingRegistry
