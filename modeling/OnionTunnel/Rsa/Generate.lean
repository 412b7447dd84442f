import OnionTunnel.Rsa
import OnionTunnel.Rsa.Modular
import OnionTunnel.Tape

/-!
# New RSA keys

Both factors have their two highest bits set, so that the modulus has exactly the length that was
asked for. A factor is searched upwards from a random odd number of its length, wrapping around
at the top.
-/

namespace OnionTunnel.Rsa

/-- The public exponent of new keys. -/
def usualExponent : Nat := 65537

/-- Odd numbers below a thousand that are tried as divisors first. -/
def smallDivisors : List Nat :=
  (List.range 500).filterMap fun i =>
    let d := 2 * i + 3
    if (List.range 16).all fun j => d % (2 * j + 3) ≠ 0 ∨ d = 2 * j + 3 then some d else none

/-- Whether repeated squaring of `x`, `n` times at most, meets `goal` modulo `m`. -/
def squaresMeet (goal m : Nat) : Nat → Nat → Bool
  | 0, x => x = goal
  | n + 1, x => x = goal || squaresMeet goal m n (x * x % m)

/-- The number of times two divides a number, at most as often as the fuel says. -/
def twosIn : Nat → Nat → Nat
  | 0, _ => 0
  | fuel + 1, n => if n % 2 = 0 then twosIn fuel (n / 2) + 1 else 0

/-- The bases that an odd number is tested against. -/
def testBases : List Nat := [2, 3, 5, 7, 11, 13, 17, 19, 23, 29, 31, 37, 41, 43, 47, 53, 59, 61, 67, 71]

/-- Whether an odd number above two passes the tests of a prime: no small divisor, and to every
base a strong probable prime. -/
def isProbablePrime (n : Nat) : Bool :=
  (smallDivisors.all fun d => n % d ≠ 0 || n = d) &&
    let twos := twosIn (Bytes.bitLength n) (n - 1)
    let odd := (n - 1) >>> twos
    testBases.all fun b =>
      b % n = 0 ||
        let x := powMod b odd n
        x = 1 || squaresMeet (n - 1) n (twos - 1) x

/-- The odd number `index` places after the first odd number of a length whose two highest bits
are set, counted around. -/
def candidate (bits index : Nat) : Nat :=
  let quarter := 1 <<< (bits - 2)
  3 * quarter + (2 * index + 1) % quarter

/-- The first prime among the next candidates. -/
def searchPrime (bits : Nat) : Nat → Nat → Option Nat
  | 0, _ => none
  | tries + 1, index =>
    let n := candidate bits index
    if isProbablePrime n then some n else searchPrime bits tries (index + 1)

/-- A prime of a length, found from a random start. -/
def drawPrime (bits : Nat) (tape : Tape) : Option Nat × Tape :=
  let (start, tape) := tape.draw (bits / 8 + 1)
  (searchPrime bits (1 <<< (bits - 2)) (Bytes.toNat start), tape)

/-- Whether factors of half the length are many enough to choose from: from twelve bits on an
eighth of the primes below the root of the modulus, counted as `x / (ln x - 1)`, is two or more. -/
def hasFactors (bits : Nat) : Bool := 12 ≤ bits

/-- A key of a length, from pairs of factors drawn until one fits. -/
def drawKey (bits : Nat) : Nat → Tape → Except RsaFault PrivateKey × Tape
  | 0, tape => (.error .tooFewPrimes, tape)
  | tries + 1, tape =>
    let (p, tape) := drawPrime (bits / 2) tape
    let (q, tape) := drawPrime (bits - bits / 2) tape
    match p, q with
    | some p, some q =>
      match inverse? usualExponent ((p - 1) * (q - 1)) with
      | some d =>
        if p = q ∨ Bytes.bitLength (p * q) ≠ bits then drawKey bits tries tape
        else (.ok ⟨⟨p * q, usualExponent⟩, d, p, q⟩, tape)
      | none => drawKey bits tries tape
    | _, _ => drawKey bits tries tape

/-- A new key whose modulus has a length. -/
def generate (bits : Nat) (tape : Tape) : Except RsaFault PrivateKey × Tape :=
  if hasFactors bits then drawKey bits 1000 tape else (.error .tooFewPrimes, tape)

end OnionTunnel.Rsa
