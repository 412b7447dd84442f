import OnionTunnel.Proofs.Rsa.Inversion

/-!
# Key transport inverts

A message that leaves room for its padding is sealed in one block as long as the modulus, and the
block opens to the message again, whatever the filler was. This holds for every product of two
different primes, of messages that share a factor with it, too. A message that is too long is not
sealed, and a block of another length is not looked at.
-/

namespace OnionTunnel.Rsa

variable {filler message : Bytes}

namespace PublicKey

variable {k : PublicKey}

/-- The block of a message that leaves room for its padding: a power in the width of the modulus. -/
theorem encrypt_of_fits (filler : Bytes) (hfits : message.length + minPadding ≤ k.size) :
    k.encrypt filler message = .ok (Bytes.ofNat k.size
      (Bytes.toNat (pad filler message) ^ k.exponent % k.modulus)) := by
  have hpower : powMod (Bytes.toNat (pad filler message)) k.exponent k.modulus =
      Bytes.toNat (pad filler message) ^ k.exponent % k.modulus := powMod_eq _ _ _
  rw [encrypt, if_neg (Nat.not_lt.2 hfits), hpower]

theorem encrypt_of_long (filler : Bytes) (hlong : k.size < message.length + minPadding) :
    k.encrypt filler message = .error (.rsa .messageTooLong) :=
  if_pos hlong

/-- A modulus is not zero if there is room for the padding in its bytes. -/
theorem modulus_pos_of_fits (hfits : message.length + minPadding ≤ k.size) : 0 < k.modulus := by
  have hsize : 0 < k.size := Nat.lt_of_lt_of_le (Nat.succ_pos _) hfits
  exact Nat.lt_of_lt_of_le (Nat.pow_pos (by decide)) (pow_size_le hsize)

end PublicKey

theorem PrivateKey.decrypt_of_length {k : PrivateKey} {block : Bytes}
    (h : block.length ≠ k.size) : k.decrypt block = .error (.blockSize k.size block.length) :=
  if_pos h

/-- What is sealed for a key opens, and nothing is sealed or opened that has a wrong length. The
owner's keypair opens just what the private key opens. -/
structure PrivateKey.Transports (k : PrivateKey) : Prop where
  /-- A message that leaves room for its padding fills one block with any filler of the right
  length that has no zeros. The block holds the power of the padded message, leading zeros
  included, and opens to the message. -/
  fits (filler message : Bytes) : message.length + 11 ≤ k.size →
    filler.length = k.size - 3 - message.length → (∀ x ∈ filler, x ≠ 0) →
    ∃ block, k.toPublicKey.encrypt filler message = .ok block ∧ block.length = k.size ∧
      Bytes.toNat block =
        Bytes.toNat (0 :: 2 :: (filler ++ 0 :: message)) ^ k.exponent % k.modulus ∧
      k.decrypt block = .ok message ∧
      ∀ owner : Keypair, owner.key = k → owner.decrypt block = .ok message
  /-- A longer message is not sealed. -/
  long (filler message : Bytes) : k.size < message.length + 11 →
    k.toPublicKey.encrypt filler message = .error (.rsa .messageTooLong)
  /-- A block of another length is turned down for its length. -/
  wrongLength (block : Bytes) : block.length ≠ k.size →
    k.decrypt block = .error (.blockSize k.size block.length) ∧
    ∀ owner : Keypair, owner.key = k →
      owner.decrypt block = .error (.blockSize k.size block.length)

/-- A private key whose modulus is the product of two different primes, and whose exponents give
one modulo each prime less one, opens every block that is sealed for its public half. Neither prime
is two, as the modulus of a key is odd. -/
theorem PrivateKey.transport_inverts (k : PrivateKey) (hp : k.prime1.Prime)
    (hq : k.prime2.Prime) (hne : k.prime1 ≠ k.prime2) (hn : k.modulus = k.prime1 * k.prime2)
    (hed1 : k.exponent * k.secret % (k.prime1 - 1) = 1)
    (hed2 : k.exponent * k.secret % (k.prime2 - 1) = 1) : k.Transports := by
  have hfactored : k.Factored := ⟨hp, hq, hne, hn.symm, hed1, hed2⟩
  constructor
  case fits =>
    intro filler message hfits hlength hnonzero
    have hblock := PublicKey.encrypt_of_fits filler hfits
    have hopens := decrypt_of_seals hfactored ⟨filler, hlength, hnonzero, hblock⟩
    refine ⟨_, hblock, Bytes.length_ofNat _ _, ?_, hopens, ?_⟩
    · exact PublicKey.toNat_block (Nat.mod_lt _ (PublicKey.modulus_pos_of_fits hfits))
    · rintro owner rfl
      exact hopens
  case long =>
    intro filler message hlong
    exact PublicKey.encrypt_of_long filler hlong
  case wrongLength =>
    intro block hlength
    have hrefused := decrypt_of_length hlength
    refine ⟨hrefused, ?_⟩
    rintro owner rfl
    exact hrefused

/-- Two Mersenne primes make a key that opens what is sealed for it, such as an empty message. -/
theorem PrivateKey.transport_inverts_mersenne :
    (mersenne 89).Prime ∧ (mersenne 127).Prime ∧ Keypair.ofMersenne.key.Transports ∧
      ∃ block, Keypair.ofMersenne.key.toPublicKey.encrypt (List.replicate 24 1) [] = .ok block ∧
        block.length = 27 ∧ Keypair.ofMersenne.decrypt block = .ok [] := by
  have hp : (mersenne 89).Prime := lucas_lehmer_sufficiency 89 (by norm_num) (by norm_num)
  have hq : (mersenne 127).Prime := lucas_lehmer_sufficiency 127 (by norm_num) (by norm_num)
  have hne : mersenne 89 ≠ mersenne 127 := by decide +kernel
  have htransports := Keypair.ofMersenne.key.transport_inverts hp hq hne rfl
    (by decide +kernel) (by decide +kernel)
  have hsize : Keypair.ofMersenne.key.size = 27 := by decide +kernel
  obtain ⟨block, hblock, hlength, -, -, hopens⟩ := htransports.fits (List.replicate 24 1) []
    (by rw [hsize]; decide) (by rw [hsize]; rfl) (by decide +kernel)
  exact ⟨hp, hq, htransports, block, hblock, hlength.trans hsize, hopens _ rfl⟩

end OnionTunnel.Rsa
