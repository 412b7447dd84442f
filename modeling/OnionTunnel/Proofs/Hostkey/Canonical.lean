import OnionTunnel.Proofs.Hostkey

/-!
# Hostkeys are canonical

A hostkey that is taken is the one that is written for its key, so each key has one, and with it one
identity. Which keys have one that is taken is a matter of their numbers alone: the owner's hostkey
is taken exactly if its modulus is not too long.
-/

namespace OnionTunnel

namespace Rsa.PublicKey

/-- Nothing is wrong with an odd exponent of at most 33 bits and an odd modulus above it. -/
theorem fault?_of_odd {n e : Nat} (hn : n % 2 = 1) (he : e % 2 = 1) (hlow : 2 ≤ e)
    (hhigh : e ≤ 2 ^ 33 - 1) (hlt : e < n) : (⟨n, e⟩ : PublicKey).fault? = none := by
  have hmodulus : ¬(n ≤ e ∨ n % 2 = 0) := by omega
  have hexponent : ¬e % 2 = 0 := by omega
  have hmax : ¬maxExponent < e := Nat.not_lt.2 hhigh
  rw [fault?, if_neg hmodulus, if_neg hexponent, if_neg (Nat.not_lt.2 hlow), if_neg hmax]

/-- If nothing else is wrong, a key is taken exactly if its modulus has at most 4096 bits. -/
theorem presentedFault?_eq_none_iff {k : PublicKey} (h : k.fault? = none) :
    k.presentedFault? = none ↔ k.modulus < 2 ^ 4096 := by
  have hbits : k.modulus < 2 ^ 4096 ↔ ¬maxModulusBits < Bytes.bitLength k.modulus :=
    Bytes.bitLength_le_iff.symm.trans Nat.not_lt.symm
  rw [hbits, presentedFault?, h]
  split
  · next hlong => simp [hlong]
  · next hshort => simp [hshort]

end Rsa.PublicKey

/-- A keypair's hostkey is taken exactly if its modulus has at most 4096 bits. -/
theorem Keypair.hostkey_taken_iff (owner : Keypair) :
    (∃ key, Hostkey.parse owner.hostkey = .ok key) ↔ owner.key.modulus < 2 ^ 4096 := by
  have hsound := owner.sound
  rw [Rsa.PrivateKey.fault?, Option.or_eq_none_iff] at hsound
  rw [← Rsa.PublicKey.presentedFault?_eq_none_iff hsound.1]
  constructor
  · rintro ⟨key, hkey⟩
    obtain ⟨hsame, hnone⟩ := Hostkey.parse_eq_ok_iff.1 hkey
    rw [Hostkey.encode_injective hsame, hnone]
  · intro hnone
    exact ⟨_, Hostkey.parse_encode hnone⟩

/-- Hostkeys are canonical.

What is taken is written for its key, and what is written for an odd modulus and an odd exponent
below it, of two to 33 bits, is taken as these numbers exactly if the modulus has at most 4096
bits. So hostkeys that are taken are equal exactly if their keys are, the identity of whoever
presents one depends on the key alone, and the hostkey of a keypair is taken by others exactly if
its modulus has at most 4096 bits. -/
theorem Hostkey.canonical_encoding :
    (∀ der k, parse der = .ok k → encode k = der) ∧
    (∀ n e, n % 2 = 1 → e % 2 = 1 → 2 ≤ e → e ≤ 2 ^ 33 - 1 → e < n →
      (parse (encode ⟨n, e⟩) = .ok ⟨n, e⟩ ↔ n < 2 ^ 4096)) ∧
    (∀ der der' k k', parse der = .ok k → parse der' = .ok k' → (der = der' ↔ k = k')) ∧
    (∀ der k, parse der = .ok k → Identity.ofHostkey der = Identity.ofHostkey (encode k)) ∧
    ∀ owner : Keypair, ((∃ k, parse owner.hostkey = .ok k) ↔ owner.key.modulus < 2 ^ 4096) ∧
      ∀ k, parse owner.hostkey = .ok k → k = owner.key.toPublicKey := by
  have hwritten : ∀ {der k}, parse der = .ok k → der = encode k :=
    fun h => (parse_eq_ok_iff.1 h).1
  refine ⟨?_, ?_, ?_, ?_, ?_⟩
  · intro der k h
    exact (hwritten h).symm
  · intro n e hn he hlow hhigh hlt
    have hsound := Rsa.PublicKey.fault?_of_odd hn he hlow hhigh hlt
    rw [parse_eq_ok_iff, Rsa.PublicKey.presentedFault?_eq_none_iff hsound]
    exact and_iff_right rfl
  · intro der der' k k' h h'
    rw [hwritten h, hwritten h']
    exact encode_injective.eq_iff
  · intro der k h
    rw [← hwritten h]
  · intro owner
    refine ⟨owner.hostkey_taken_iff, ?_⟩
    intro k h
    exact (encode_injective (hwritten h)).symm

end OnionTunnel
