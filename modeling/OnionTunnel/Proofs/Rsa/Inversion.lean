import Mathlib.FieldTheory.Finite.Basic
import Mathlib.NumberTheory.LucasLehmer
import OnionTunnel.Proofs.Hostkey
import OnionTunnel.Proofs.Session.Registry

/-!
# Private keys open what is sealed for them

Raising to both exponents gives a number back modulo each factor, since these are prime. The two
roots join to the number that was sealed, so a keypair with prime factors opens every block that is
sealed for its hostkey.
-/

namespace OnionTunnel.Rsa

/-- A power gives a number back modulo a prime if the exponent does modulo the order. -/
theorem pow_modEq_self {p a : Nat} (hp : p.Prime) (ha : a % (p - 1) = 1) (x : Nat) :
    x ^ a ≡ x [MOD p] := by
  have hsplit : a = (p - 1) * (a / (p - 1)) + 1 := by
    have hdiv := Nat.div_add_mod a (p - 1)
    rw [ha] at hdiv
    exact hdiv.symm
  by_cases hdvd : p ∣ x
  · have hzero : x ≡ 0 [MOD p] := (Nat.modEq_zero_iff_dvd).2 hdvd
    have hpow : x ^ a ≡ 0 [MOD p] :=
      (Nat.modEq_zero_iff_dvd).2 (dvd_pow hdvd (by omega))
    exact hpow.trans hzero.symm
  · have hcoprime : Nat.Coprime x p := (hp.coprime_iff_not_dvd.2 hdvd).symm
    have hfermat : x ^ (p - 1) ≡ 1 [MOD p] := by
      simpa [Nat.totient_prime hp] using Nat.ModEq.pow_totient hcoprime
    calc
      x ^ a = (x ^ (p - 1)) ^ (a / (p - 1)) * x := by
        conv_lhs => rw [hsplit, pow_succ, pow_mul]
      _ ≡ 1 ^ (a / (p - 1)) * x [MOD p] := (hfermat.pow _).mul_right x
      _ = x := by rw [one_pow, one_mul]

/-- The root of a power modulo one of the factors. -/
theorem powMod_root {p e d x c : Nat} (hp : p.Prime) (hed : e * d % (p - 1) = 1)
    (hc : c ≡ x ^ e [MOD p]) : powMod c (d % (p - 1)) p = x % p := by
  have hexponent : e * (d % (p - 1)) % (p - 1) = 1 := by rw [Nat.mul_mod_mod, hed]
  rw [powMod_eq]
  show c ^ (d % (p - 1)) ≡ x [MOD p]
  calc
    c ^ (d % (p - 1)) ≡ (x ^ e) ^ (d % (p - 1)) [MOD p] := hc.pow _
    _ = x ^ (e * (d % (p - 1))) := (pow_mul x e _).symm
    _ ≡ x [MOD p] := pow_modEq_self hp hexponent x

/-- Numbers with no common factor have an inverse. -/
theorem exists_inverse? {a m : Nat} (h : Nat.Coprime a m) :
    ∃ coefficient, inverse? a m = some coefficient :=
  ⟨_, if_pos h⟩

/-- A number and its inverse give one. -/
theorem inverse?_modEq {a m coefficient : Nat} (hm : 0 < m)
    (h : inverse? a m = some coefficient) : (a : Int) * coefficient ≡ 1 [ZMOD m] := by
  unfold inverse? at h
  split at h
  · next hgcd =>
    have hbezout := bezout_eq a m
    have hnonneg : 0 ≤ (bezout a m).1 % m := Int.emod_nonneg _ (by omega)
    rw [← Option.some.inj h, Int.toNat_of_nonneg hnonneg]
    calc
      (a : Int) * ((bezout a m).1 % m) ≡ a * (bezout a m).1 [ZMOD m] :=
        (Int.mod_modEq _ _).mul_left _
      _ = 1 - m * (bezout a m).2 := by
        rw [hgcd] at hbezout
        push_cast at hbezout
        omega
      _ ≡ 1 [ZMOD m] := by simp [Int.modEq_iff_dvd]
  · cases h

/-- What comes of two residues when they are joined: a number that has both. -/
theorem join_modEq {p q m2 coefficient : Nat} (m1 : Nat) (hp : 0 < p) (hm2 : m2 < q)
    (hcoefficient : (q : Int) * coefficient ≡ 1 [ZMOD p]) :
    m2 + q * (((m1 : Int) - m2) * coefficient % p).toNat < p * q ∧
    m2 + q * (((m1 : Int) - m2) * coefficient % p).toNat ≡ m1 [MOD p] ∧
    m2 + q * (((m1 : Int) - m2) * coefficient % p).toNat ≡ m2 [MOD q] := by
  have hnonneg : 0 ≤ ((m1 : Int) - m2) * coefficient % p := Int.emod_nonneg _ (by omega)
  have hlt : ((m1 : Int) - m2) * coefficient % p < p := Int.emod_lt_of_pos _ (by omega)
  refine ⟨?_, ?_, ?_⟩
  · have hle : (((m1 : Int) - m2) * coefficient % p).toNat + 1 ≤ p := by omega
    calc
      m2 + q * (((m1 : Int) - m2) * coefficient % p).toNat
          < q * ((((m1 : Int) - m2) * coefficient % p).toNat + 1) := by
        rw [Nat.mul_add, Nat.mul_one]
        omega
      _ ≤ q * p := Nat.mul_le_mul_left q hle
      _ = p * q := Nat.mul_comm q p
  · rw [← Int.natCast_modEq_iff]
    push_cast
    rw [Int.toNat_of_nonneg hnonneg]
    calc
      (m2 : Int) + q * (((m1 : Int) - m2) * coefficient % p)
          ≡ m2 + q * (((m1 : Int) - m2) * coefficient) [ZMOD p] :=
        ((Int.mod_modEq _ _).mul_left _).add_left _
      _ = m2 + q * coefficient * ((m1 : Int) - m2) := by ring
      _ ≡ m2 + 1 * ((m1 : Int) - m2) [ZMOD p] := (hcoefficient.mul_right _).add_left _
      _ = m1 := by ring
  · exact Nat.add_modEq_left_iff.2 (Dvd.intro _ rfl)

namespace PrivateKey

/-- A private key with nothing wrong in its numbers has two factors, and its exponents give a
number back modulo either. -/
theorem exponents_of_sound {k : PrivateKey} (h : k.fault? = none) :
    k.prime1 * k.prime2 = k.modulus ∧ k.exponent * k.secret % (k.prime1 - 1) = 1 ∧
      k.exponent * k.secret % (k.prime2 - 1) = 1 := by
  rw [fault?, Option.or_eq_none_iff] at h
  obtain ⟨-, h⟩ := h
  split at h
  · cases h
  · split at h
    · cases h
    · next hproduct =>
      split at h
      · cases h
      · next hexponents =>
        rw [not_or, not_not, not_not] at hexponents
        exact ⟨not_not.1 hproduct, hexponents⟩

/-- A private key whose modulus is the product of two different primes, and whose exponents give a
number back modulo either. -/
structure Factored (k : PrivateKey) : Prop where
  prime1 : k.prime1.Prime
  prime2 : k.prime2.Prime
  ne : k.prime1 ≠ k.prime2
  modulus_eq : k.prime1 * k.prime2 = k.modulus
  exponent1 : k.exponent * k.secret % (k.prime1 - 1) = 1
  exponent2 : k.exponent * k.secret % (k.prime2 - 1) = 1

theorem factored_of_sound {k : PrivateKey} (h : k.fault? = none) (hp : k.prime1.Prime)
    (hq : k.prime2.Prime) (hne : k.prime1 ≠ k.prime2) : k.Factored :=
  have ⟨hmodulus, hed1, hed2⟩ := exponents_of_sound h
  ⟨hp, hq, hne, hmodulus, hed1, hed2⟩

/-- The root of a power is the number that was raised. -/
theorem root_pow {k : PrivateKey} (h : k.Factored) {x : Nat} (hx : x < k.modulus) :
    k.root (x ^ k.exponent % k.modulus) = x := by
  obtain ⟨hp, hq, hne, hmodulus, hed1, hed2⟩ := h
  have hcoprime : Nat.Coprime k.prime1 k.prime2 := (Nat.coprime_primes hp hq).2 hne
  have hc1 : x ^ k.exponent % k.modulus ≡ x ^ k.exponent [MOD k.prime1] :=
    (Nat.mod_modEq _ _).of_dvd (Dvd.intro _ hmodulus)
  have hc2 : x ^ k.exponent % k.modulus ≡ x ^ k.exponent [MOD k.prime2] :=
    (Nat.mod_modEq _ _).of_dvd (Dvd.intro_left _ hmodulus)
  obtain ⟨coefficient, hinverse⟩ := exists_inverse? hcoprime.symm
  obtain ⟨hlt, hmod1, hmod2⟩ := join_modEq (x % k.prime1) hp.pos
    (Nat.mod_lt x hq.pos) (inverse?_modEq hp.pos hinverse)
  have hboth := (Nat.modEq_and_modEq_iff_modEq_mul hcoprime).1
    ⟨hmod1.trans (Nat.mod_modEq x _), hmod2.trans (Nat.mod_modEq x _)⟩
  simp only [root, hinverse, powMod_root hp hed1 hc1, powMod_root hq hed2 hc2]
  exact hboth.eq_of_lt_of_lt hlt (hmodulus ▸ hx)

end PrivateKey

/-! ### Padding -/

theorem unpad_pad {filler : Bytes} (message : Bytes) (hlen : 8 ≤ filler.length)
    (hne : ∀ x ∈ filler, x ≠ 0) : unpad (pad filler message) = some message := by
  have hall : ∀ x ∈ filler, decide (x ≠ 0) = true := by simpa using hne
  rw [pad, unpad, List.dropWhile_append_of_pos hall, List.takeWhile_append_of_pos hall]
  simp [hlen]

/-- The modulus of a key takes up all its bytes. -/
theorem PublicKey.pow_size_le {k : PublicKey} (h : 0 < k.size) :
    256 ^ (k.size - 1) ≤ k.modulus := by
  by_contra hlt
  have hshorter := Bytes.byteLength_le (Nat.lt_of_not_ge hlt)
  unfold size at h hshorter
  omega

/-- A number below the modulus is read back from the block that holds it. -/
theorem PublicKey.toNat_block {k : PublicKey} {c : Nat} (h : c < k.modulus) :
    Bytes.toNat (Bytes.ofNat k.size c) = c :=
  Bytes.toNat_ofNat (Nat.lt_trans h (Bytes.lt_pow_byteLength k.modulus))

theorem PublicKey.Seals.exists_pad {k : PublicKey} {message block : Bytes}
    (h : k.Seals message block) : ∃ filler : Bytes, 8 ≤ filler.length ∧ (∀ x ∈ filler, x ≠ 0) ∧
      (pad filler message).length = k.size ∧
      block = Bytes.ofNat k.size
        (powMod (Bytes.toNat (pad filler message)) k.exponent k.modulus) := by
  obtain ⟨filler, hlen, hne, hblock⟩ := h
  rw [encrypt] at hblock
  split at hblock
  · cases hblock
  · next hfit =>
    rw [fillerLength] at hlen
    rw [minPadding] at hfit
    refine ⟨filler, by omega, hne, ?_, (Except.ok.inj hblock).symm⟩
    simp only [pad, List.length_cons, List.length_append]
    omega

/-- A padded message is smaller than the modulus. -/
theorem toNat_pad_lt {k : PublicKey} {filler message : Bytes}
    (h : (pad filler message).length = k.size) : Bytes.toNat (pad filler message) < k.modulus := by
  have hsize : 0 < k.size := by
    rw [← h]
    exact Nat.succ_pos _
  have hrest := Bytes.toNat_lt (2 :: (filler ++ 0 :: message))
  have hlen : (2 :: (filler ++ 0 :: message)).length = k.size - 1 := by
    rw [← h, pad]
    rfl
  rw [pad, Bytes.toNat_cons]
  simp only [UInt8.toNat_zero, Nat.zero_mul, Nat.zero_add]
  rw [hlen] at hrest
  exact Nat.lt_of_lt_of_le hrest (PublicKey.pow_size_le hsize)

/-- A private key with two different primes opens what is sealed for its public half. -/
theorem PrivateKey.decrypt_of_seals {k : PrivateKey} (h : k.Factored) {message block : Bytes}
    (hblock : k.toPublicKey.Seals message block) : k.decrypt block = .ok message := by
  obtain ⟨filler, hlen, hnonzero, hsize, rfl⟩ := hblock.exists_pad
  have hx := toNat_pad_lt hsize
  have hpos : 0 < k.modulus := Nat.lt_of_le_of_lt (Nat.zero_le _) hx
  have hlt : Bytes.toNat (pad filler message) ^ k.exponent % k.modulus < k.modulus :=
    Nat.mod_lt _ hpos
  have hread := PublicKey.toNat_block hlt
  have hpower : powMod (Bytes.toNat (pad filler message)) k.exponent k.modulus =
      Bytes.toNat (pad filler message) ^ k.exponent % k.modulus := powMod_eq _ _ _
  unfold decrypt
  rw [hpower, if_neg (by simp)]
  simp only [hread, if_neg (Nat.not_le.2 hlt), root_pow h hx, hpower]
  rw [if_neg (by simp), Bytes.ofNat_toNat_of_length hsize, unpad_pad message hlen hnonzero]

end OnionTunnel.Rsa

namespace OnionTunnel

/-- A keypair with two different primes opens what is sealed for its hostkey, if its modulus is at
most 512 bytes long. -/
theorem Keypair.inverts_of_primes {k : Keypair} (hp : k.key.prime1.Prime)
    (hq : k.key.prime2.Prime) (hne : k.key.prime1 ≠ k.key.prime2) (hsize : k.key.size ≤ 512) :
    k.Inverts := by
  intro key message block hkey hblock
  obtain rfl := Except.ok.inj ((parse_hostkey hsize).symm.trans hkey)
  exact k.key.decrypt_of_seals (k.key.factored_of_sound k.sound hp hq hne) hblock

/-- A keypair whose hostkey others take, and that opens what they seal for it. -/
structure Keypair.Fit (k : Keypair) : Prop where
  inverts : k.Inverts
  taken : ∃ key, Hostkey.parse k.hostkey = .ok key ∧
    SessionRegistry.keyLength + Rsa.minPadding ≤ key.size
  length_le : k.hostkey.length ≤ 1024

/-- A keypair that opens what is sealed for it is fit if its modulus holds a session's key and is at
most 512 bytes long. -/
theorem Keypair.fit_of_size {k : Keypair} (h : k.Inverts) (hlarge : 27 ≤ k.key.size)
    (hsmall : k.key.size ≤ 512) : k.Fit where
  inverts := h
  taken := ⟨k.key.toPublicKey, parse_hostkey hsmall, hlarge⟩
  length_le := Nat.le_trans (Hostkey.length_encode (presented hsmall)) (by decide)

/-- A keypair whose factors are two Mersenne primes. Its modulus is as short as can be for blocks
that take a session's key. -/
def Keypair.ofMersenne : Keypair where
  key := ⟨⟨mersenne 89 * mersenne 127, Rsa.usualExponent⟩,
    68293824799940193091864384425499989004082341359236580111614123, mersenne 89, mersenne 127⟩
  sound := by decide +kernel

theorem Keypair.ofMersenne_inverts : Keypair.ofMersenne.Inverts := by
  apply inverts_of_primes
  · exact lucas_lehmer_sufficiency 89 (by norm_num) (by norm_num)
  · exact lucas_lehmer_sufficiency 127 (by norm_num) (by norm_num)
  · decide +kernel
  · decide +kernel

theorem Keypair.ofMersenne_fit : Keypair.ofMersenne.Fit :=
  fit_of_size ofMersenne_inverts (by decide +kernel) (by decide +kernel)

/-- A keypair of two Mersenne primes with a wider modulus. -/
def Keypair.ofWideMersenne : Keypair where
  key := ⟨⟨mersenne 107 * mersenne 127, Rsa.usualExponent⟩,
    1344817444321764797984983022739468219102312296809690742034819763220963, mersenne 107,
    mersenne 127⟩
  sound := by decide +kernel

theorem Keypair.ofWideMersenne_inverts : Keypair.ofWideMersenne.Inverts := by
  apply inverts_of_primes
  · exact lucas_lehmer_sufficiency 107 (by norm_num) (by norm_num)
  · exact lucas_lehmer_sufficiency 127 (by norm_num) (by norm_num)
  · decide +kernel
  · decide +kernel

theorem Keypair.ofWideMersenne_fit : Keypair.ofWideMersenne.Fit :=
  fit_of_size ofWideMersenne_inverts (by decide +kernel) (by decide +kernel)

end OnionTunnel
