/-!
# Powers of two and ten

* `pow2`, `pow10`: the powers that words and decimals are made of.
-/

namespace BoardAtlas

/-- A power of two. -/
def pow2 (n : Nat) : Nat := Nat.pow 2 n

/-- A power of ten. -/
def pow10 (n : Nat) : Nat := Nat.pow 10 n

theorem pow2_succ (n : Nat) : pow2 (n + 1) = pow2 n * 2 := rfl

theorem pow2_pos (n : Nat) : 0 < pow2 n := by
  induction n with
  | zero => exact Nat.one_pos
  | succ n ih => rw [pow2_succ]; omega

end BoardAtlas
