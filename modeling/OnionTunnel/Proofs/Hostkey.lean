import Mathlib.Tactic.SplitIfs
import OnionTunnel.Hostkey.Keypair
import OnionTunnel.Proofs.Bytes.Reading
import OnionTunnel.Proofs.Der

/-!
# A key has one hostkey

The bytes that are read as a hostkey are the ones that are written for the key, and the hostkey of a
key that others take is short. So peers that are given the hostkey of a keypair seal for its public
half.
-/

namespace OnionTunnel

namespace Rsa.PublicKey

/-- A key that others take has a bounded modulus and a bounded exponent. -/
theorem bounds_of_presented {k : PublicKey} (h : k.presentedFault? = none) :
    Bytes.bitLength k.modulus ≤ 4096 ∧ Bytes.bitLength k.exponent ≤ 33 := by
  unfold presentedFault? fault? at h
  split_ifs at h with hbits _ _ _ hexponent
  refine ⟨Nat.not_lt.1 hbits, Bytes.bitLength_le ?_⟩
  exact Nat.lt_of_le_of_lt (Nat.not_lt.1 hexponent) (by decide)

/-- A key with nothing wrong in its numbers is taken if its modulus is at most 512 bytes long. -/
theorem presented_of_size {k : PublicKey} (h : k.fault? = none) (hsize : k.size ≤ 512) :
    k.presentedFault? = none := by
  have hbits : Bytes.bitLength k.modulus ≤ maxModulusBits := by
    unfold size Bytes.byteLength at hsize
    unfold maxModulusBits
    omega
  rw [presentedFault?, if_neg (Nat.not_lt.2 hbits), h]

end Rsa.PublicKey

namespace Hostkey

variable {k : Rsa.PublicKey}

theorem length_encodeNumbers (h : k.presentedFault? = none) : (encodeNumbers k).length ≤ 536 := by
  obtain ⟨hmodulus, hexponent⟩ := Rsa.PublicKey.bounds_of_presented h
  have hfirst := Der.length_integer (n := k.modulus) (by omega)
  have hsecond := Der.length_integer (n := k.exponent) (by omega)
  have hboth : (Der.integer k.modulus ++ Der.integer k.exponent).length ≤ 530 := by
    rw [List.length_append]
    omega
  have hsequence := Der.length_element Der.sequenceTag (Nat.lt_of_le_of_lt hboth (by decide))
  rw [encodeNumbers, Der.sequence]
  omega

theorem length_body (h : k.presentedFault? = none) :
    (algorithm ++ Der.bitString (encodeNumbers k)).length ≤ 558 := by
  have hnumbers := length_encodeNumbers h
  have hshort : (0 :: encodeNumbers k).length < 256 ^ 4 := by
    rw [List.length_cons]
    omega
  have hbits := Der.length_element Der.bitStringTag hshort
  have halgorithm : algorithm.length = 15 := rfl
  rw [List.length_append, Der.bitString, halgorithm]
  rw [List.length_cons] at hbits
  omega

/-- The hostkey of a key that others take is short. -/
theorem length_encode (h : k.presentedFault? = none) : (encode k).length ≤ 564 := by
  have hbody := length_body h
  have hsequence := Der.length_element Der.sequenceTag (Nat.lt_of_le_of_lt hbody (by decide))
  rw [encode, Der.sequence]
  omega

/-- The bytes in which the numbers of a key are read are the ones that spell them. -/
theorem readNumbers?_iff {b : Bytes} : readNumbers? b = some k ↔ b = encodeNumbers k := by
  constructor
  · intro h
    obtain ⟨content, hcontent, h⟩ := Option.bind_eq_some_iff.1 h
    obtain ⟨⟨modulus, rest⟩, hmodulus, h⟩ := Option.bind_eq_some_iff.1 h
    obtain ⟨⟨exponent, rest'⟩, hexponent, h⟩ := Option.bind_eq_some_iff.1 h
    cases rest' with
    | cons x rest' => cases h
    | nil =>
      obtain rfl := Option.some.inj h
      rw [Der.readOnly_iff.1 hcontent, Der.readInteger_iff.1 hmodulus,
        Der.readInteger_iff.1 hexponent, List.append_nil]
      rfl
  · rintro rfl
    have hcontent : Der.readOnly Der.sequenceTag (encodeNumbers k) =
        some (Der.integer k.modulus ++ Der.integer k.exponent) := Der.readOnly_iff.2 rfl
    have hmodulus : Der.readInteger (Der.integer k.modulus ++ Der.integer k.exponent) =
        some (k.modulus, Der.integer k.exponent) := Der.readInteger_iff.2 rfl
    have hexponent : Der.readInteger (Der.integer k.exponent) = some (k.exponent, []) :=
      Der.readInteger_iff.2 (List.append_nil _).symm
    simp only [readNumbers?, hcontent, hmodulus, hexponent, Option.bind_eq_bind, Option.bind_some]

/-- A key has one hostkey: the bytes in which it is read are the ones that are written for it. -/
theorem read?_iff {der : Bytes} : read? der = some k ↔ der = encode k := by
  constructor
  · intro h
    obtain ⟨content, hcontent, h⟩ := Option.bind_eq_some_iff.1 h
    obtain ⟨body, hbody, h⟩ := Option.bind_eq_some_iff.1 h
    obtain ⟨⟨numbers, rest⟩, hnumbers, h⟩ := Option.bind_eq_some_iff.1 h
    cases rest with
    | cons x rest => cases h
    | nil =>
      rw [Der.readOnly_iff.1 hcontent, Bytes.eq_append_of_afterPrefix? hbody,
        Der.readBitString_iff.1 hnumbers, List.append_nil, readNumbers?_iff.1 h]
      rfl
  · rintro rfl
    have hcontent : Der.readOnly Der.sequenceTag (encode k) =
        some (algorithm ++ Der.bitString (encodeNumbers k)) := Der.readOnly_iff.2 rfl
    have hnumbers : Der.readBitString (Der.bitString (encodeNumbers k)) =
        some (encodeNumbers k, []) := Der.readBitString_iff.2 (List.append_nil _).symm
    simp only [read?, hcontent, Bytes.afterPrefix?_append, hnumbers, Option.bind_eq_bind,
      Option.bind_some]
    exact readNumbers?_iff.2 rfl

/-- Different keys have different hostkeys. -/
theorem encode_injective : Function.Injective encode := by
  intro k k' h
  exact Option.some.inj ((read?_iff.2 rfl).symm.trans (read?_iff.2 h))

/-- A hostkey is taken exactly if it is written for a key with bounded numbers. -/
theorem parse_eq_ok_iff {der : Bytes} :
    parse der = .ok k ↔ der = encode k ∧ k.presentedFault? = none := by
  rw [← read?_iff, parse]
  cases read? der with
  | none => simp
  | some key =>
    simp only [Option.some.injEq]
    cases hfault : key.presentedFault? with
    | none =>
      constructor
      · intro h
        obtain rfl := Except.ok.inj h
        exact ⟨rfl, hfault⟩
      · rintro ⟨rfl, -⟩
        rfl
    | some fault =>
      constructor
      · intro h
        cases h
      · rintro ⟨rfl, hnone⟩
        rw [hfault] at hnone
        cases hnone

/-- The hostkey of a key that others take is read as this key. -/
theorem parse_encode (h : k.presentedFault? = none) : parse (encode k) = .ok k :=
  parse_eq_ok_iff.2 ⟨rfl, h⟩

end Hostkey

namespace Keypair

/-- The public half of a keypair is taken by others if its modulus is at most 512 bytes long. -/
theorem presented {k : Keypair} (h : k.key.size ≤ 512) :
    k.key.toPublicKey.presentedFault? = none := by
  have hsound := k.sound
  rw [Rsa.PrivateKey.fault?, Option.or_eq_none_iff] at hsound
  exact Rsa.PublicKey.presented_of_size hsound.1 h

/-- The hostkey of a keypair is read as its public half. -/
theorem parse_hostkey {k : Keypair} (h : k.key.size ≤ 512) :
    Hostkey.parse k.hostkey = .ok k.key.toPublicKey :=
  Hostkey.parse_encode (presented h)

end Keypair

end OnionTunnel
