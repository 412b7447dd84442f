/-!
# Arithmetic modulo a number

Powers by repeated squaring, and inverses by Euclid's algorithm. Main statements: `powMod_eq`, a
power is the residue of the plain power, and `bezout_eq`, the two coefficients combine to the
greatest common divisor.
-/

namespace OnionTunnel.Rsa

/-- The residue of `base ^ exponent`, by repeated squaring. -/
def powMod (base exponent modulus : Nat) : Nat :=
  if exponent = 0 then 1 % modulus
  else
    let half := powMod (base * base % modulus) (exponent / 2) modulus
    if exponent % 2 = 1 then half * base % modulus else half
termination_by exponent

/-- A power by repeated squaring is the residue of the plain power. -/
theorem powMod_eq (base exponent modulus : Nat) :
    powMod base exponent modulus = Nat.pow base exponent % modulus := by
  show _ = base ^ exponent % modulus
  fun_induction powMod base exponent modulus with
  | case1 => simp_all
  | case2 base e _ half hodd ih =>
    have he : e = 2 * (e / 2) + 1 := by omega
    conv => rhs; rw [he, Nat.pow_succ, Nat.pow_mul]
    rw [show half = _ from ih, ← Nat.pow_mod, Nat.mod_mul_mod, Nat.pow_two]
  | case3 base e _ half heven ih =>
    have he : e = 2 * (e / 2) := by omega
    conv => rhs; rw [he, Nat.pow_mul]
    rw [show half = _ from ih, ← Nat.pow_mod, Nat.pow_two]

/-- The coefficients that combine two numbers to their greatest common divisor. -/
def bezout (a b : Nat) : Int × Int :=
  if _h : b = 0 then (1, 0)
  else
    let c := bezout b (a % b)
    (c.2, c.1 - (a / b : Nat) * c.2)
termination_by b
decreasing_by exact Nat.mod_lt _ (Nat.pos_of_ne_zero _h)

/-- The coefficients combine to the greatest common divisor. -/
theorem bezout_eq (a b : Nat) :
    (a : Int) * (bezout a b).1 + b * (bezout a b).2 = Nat.gcd a b := by
  fun_induction bezout a b with
  | case1 => simp_all
  | case2 a b _ c ih =>
    have hdiv : (a : Int) = b * (a / b : Nat) + (a % b : Nat) := by
      exact_mod_cast (Nat.div_add_mod a b).symm
    rw [show Nat.gcd a b = Nat.gcd b (a % b) by rw [Nat.gcd_comm, Nat.gcd_rec, Nat.gcd_comm], ← ih]
    show (a : Int) * c.2 + b * (c.1 - (a / b : Nat) * c.2) = b * c.1 + (a % b : Nat) * c.2
    conv => lhs; rw [hdiv]
    rw [Int.add_mul, Int.mul_sub, ← Int.mul_assoc]
    omega

/-- The inverse of a number modulo another, if they have no common factor. -/
def inverse? (a modulus : Nat) : Option Nat :=
  if Nat.gcd a modulus = 1 then some ((bezout a modulus).1 % modulus).toNat else none

end OnionTunnel.Rsa
