/-
Integers rounded to a number of binary digits: to the nearest one that has no
more digits before its trailing zeros, and of two such to the even one.

`round_eq_iff` says which integers are their own rounding.
-/
import Mathlib.Algebra.Order.Ring.Int
import Mathlib.Data.Nat.Log

namespace Handystats.Rounding

/-- The weight of the last of the first `p` binary digits. -/
def lastDigit (p n : Nat) : Nat := 2 ^ (n.log2 + 1 - p)

/-- The multiple of `d` nearest to `n`, of two the even one. -/
def nearest (d n : Nat) : Nat :=
  if 2 * (n % d) < d ∨ 2 * (n % d) = d ∧ n / d % 2 = 0 then n / d * d else (n / d + 1) * d

/-- The nearest integer of `p` binary digits. -/
def round (p : Nat) (n : Int) : Int := n.sign * nearest (lastDigit p n.natAbs) n.natAbs

/-- The integer has no more than `p` binary digits before its trailing zeros. -/
def Exact (p : Nat) (n : Int) : Prop := lastDigit p n.natAbs ∣ n.natAbs

instance (p : Nat) (n : Int) : Decidable (Exact p n) :=
  inferInstanceAs (Decidable (lastDigit p n.natAbs ∣ n.natAbs))

theorem nearest_eq_iff {d n : Nat} (hd : 0 < d) : nearest d n = n ↔ d ∣ n := by
  constructor
  · intro h
    rw [← h, nearest]
    split_ifs
    · exact Nat.dvd_mul_left ..
    · exact Nat.dvd_mul_left ..
  · intro h
    rw [nearest, if_pos, Nat.div_mul_cancel h]
    rw [Nat.mod_eq_zero_of_dvd h]
    exact .inl hd

/-- **Which integers are their own rounding.** -/
theorem round_eq_iff {p : Nat} {n : Int} : round p n = n ↔ Exact p n := by
  have hd : 0 < lastDigit p n.natAbs := Nat.two_pow_pos _
  rw [Exact, ← nearest_eq_iff hd, round]
  constructor
  · intro h
    have habs := congrArg Int.natAbs h
    rcases eq_or_ne n 0 with rfl | hn
    · simp [nearest, lastDigit]
    · rwa [Int.natAbs_mul, Int.natAbs_sign_of_ne_zero hn, one_mul, Int.natAbs_natCast] at habs
  · intro h
    rw [h, Int.sign_mul_natAbs]

/-- Few digits are all there. -/
theorem exact_of_lt {p : Nat} {n : Int} (h : n.natAbs < 2 ^ p) : Exact p n := by
  rcases eq_or_ne n.natAbs 0 with h₀ | h₀
  · rw [Exact, h₀]
    exact Nat.dvd_zero _
  · have hlog := (Nat.log2_lt h₀).2 h
    have hzero : n.natAbs.log2 + 1 - p = 0 := by omega
    rw [Exact, lastDigit, hzero, pow_zero]
    exact Nat.one_dvd _

end Handystats.Rounding
