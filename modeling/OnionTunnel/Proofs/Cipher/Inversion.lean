import Mathlib.Data.Set.Function
import OnionTunnel.Proofs.Cipher.Sealed

/-!
# Encryption and decryption are inverse

Under a block function and an initial vector, the texts of a length and the ciphertexts of that
length correspond one to one, whatever the block function is. A sealed text is the initial vector
and such a ciphertext, so under a secret of a length that the cipher takes every text is got back,
and so is every byte string that has room for an initial vector.
-/

namespace OnionTunnel

/-- Encryption and decryption with one initial vector undo each other. -/
theorem Feedback.invOn_encrypt {f : Bytes → Bytes} (hf : ∀ b, (f b).length = block)
    (before : Bytes) (s t : Set Bytes) :
    Set.InvOn (decrypt f before) (encrypt f before) s t :=
  ⟨fun text _ => decrypt_encrypt hf before text, fun cipher _ => encrypt_decrypt hf before cipher⟩

/-- Texts of a length correspond to ciphertexts of that length. -/
theorem Feedback.bijOn_encrypt {f : Bytes → Bytes} (hf : ∀ b, (f b).length = block)
    (before : Bytes) (n : Nat) :
    Set.BijOn (encrypt f before) {text | text.length = n} {cipher | cipher.length = n} := by
  apply (invOn_encrypt hf before _ _).bijOn
  · intro text htext
    exact (length_encrypt hf before text).trans htext
  · intro cipher hcipher
    exact (length_decrypt hf before cipher).trans hcipher

namespace Sealed

theorem encrypt_of_valid {secret : Bytes} (h : Aes.validLength secret.length)
    (vector text : Bytes) : encrypt secret vector text =
      .ok (vector ++ Feedback.encrypt (Aes.blockFunction (Aes.schedule secret)) vector text) :=
  if_pos h

theorem decrypt_append {secret vector : Bytes} (h : Aes.validLength secret.length)
    (hv : vector.length = vectorLength) (cipher : Bytes) : decrypt secret (vector ++ cipher) =
      .ok (Feedback.decrypt (Aes.blockFunction (Aes.schedule secret)) vector cipher) := by
  have hlong : ¬(vector ++ cipher).length < vectorLength := by
    rw [List.length_append, hv]
    omega
  rw [decrypt, if_neg hlong, if_pos h, List.take_left' hv, List.drop_left' hv]

/-- Encryption under a secret and decryption under it undo each other, on texts and on data of
every length. -/
structure Inverts (secret : Bytes) : Prop where
  /-- What a text is encrypted to starts with the initial vector, is longer by it, and opens. -/
  text (vector text : Bytes) : vector.length = vectorLength →
    ∃ data, encrypt secret vector text = .ok data ∧ data.take vectorLength = vector ∧
      data.length = text.length + vectorLength ∧ decrypt secret data = .ok text
  /-- Data with room for an initial vector opens, and encrypts to itself again. -/
  data (data : Bytes) : vectorLength ≤ data.length →
    ∃ text, decrypt secret data = .ok text ∧
      encrypt secret (data.take vectorLength) text = .ok data
  /-- With one initial vector, the texts of a length correspond to the ciphertexts of it. -/
  bijective (vector : Bytes) (n : Nat) : vector.length = vectorLength →
    Set.BijOn (encrypt secret vector) {text | text.length = n}
      {r | ∃ cipher : Bytes, cipher.length = n ∧ r = .ok (vector ++ cipher)}

theorem inverts_of_valid {secret : Bytes} (h : Aes.validLength secret.length) :
    Inverts secret := by
  have hf := Aes.length_blockFunction (Aes.schedule secret)
  constructor
  case text =>
    intro vector text hv
    refine ⟨_, encrypt_of_valid h vector text, List.take_left' hv, ?_, ?_⟩
    · rw [List.length_append, Feedback.length_encrypt hf, hv, Nat.add_comm]
    · rw [decrypt_append h hv, Feedback.decrypt_encrypt hf]
  case data =>
    intro data hlong
    have hv : (data.take vectorLength).length = vectorLength := List.length_take_of_le hlong
    have hopened := decrypt_append h hv (data.drop vectorLength)
    rw [List.take_append_drop] at hopened
    refine ⟨_, hopened, ?_⟩
    rw [encrypt_of_valid h, Feedback.encrypt_decrypt hf, List.take_append_drop]
  case bijective =>
    intro vector n hv
    have hsame : Set.EqOn (Except.ok ∘ (vector ++ ·) ∘
        Feedback.encrypt (Aes.blockFunction (Aes.schedule secret)) vector)
        (encrypt secret vector) {text | text.length = n} :=
      fun text _ => (encrypt_of_valid h vector text).symm
    -- Putting the vector in front is one to one, so only the cipher itself is to be looked at.
    have hfront : Set.BijOn (fun cipher => (.ok (vector ++ cipher) : Except CipherError Bytes))
        {cipher | cipher.length = n}
        {r | ∃ cipher : Bytes, cipher.length = n ∧ r = .ok (vector ++ cipher)} := by
      refine ⟨?_, ?_, ?_⟩
      · intro cipher hcipher
        exact ⟨cipher, hcipher, rfl⟩
      · intro cipher _ cipher' _ heq
        exact List.append_cancel_left (Except.ok.inj heq)
      · rintro _ ⟨cipher, hcipher, rfl⟩
        exact ⟨cipher, hcipher, rfl⟩
    exact (hfront.comp (Feedback.bijOn_encrypt hf vector n)).congr hsame

/-- Under a secret of 16, 24 or 32 bytes encryption and decryption undo each other, for texts and
data of every length. Any other secret is turned down by its length, and data with no room for an
initial vector before the secret is looked at. -/
theorem encryption_inverts (secret : Bytes) :
    (secret.length ∈ [16, 24, 32] → Inverts secret) ∧
    (secret.length ∉ [16, 24, 32] →
      (∀ vector text, encrypt secret vector text = .error (.keyLength secret.length)) ∧
      ∀ data, 16 ≤ data.length → decrypt secret data = .error (.keyLength secret.length)) ∧
    ∀ data, data.length < 16 → decrypt secret data = .error (.tooShort data.length 16) := by
  have hvalid : Aes.validLength secret.length ↔ secret.length ∈ [16, 24, 32] := by
    simp [Aes.validLength]
  refine ⟨fun h => inverts_of_valid (hvalid.2 h), ?_, ?_⟩
  · intro hbad
    have hlength : ¬Aes.validLength secret.length := fun h => hbad (hvalid.1 h)
    refine ⟨fun vector text => if_neg hlength, ?_⟩
    intro data hlong
    have hroom : ¬data.length < vectorLength := Nat.not_lt.2 hlong
    rw [decrypt, if_neg hroom, if_neg hlength]
  · intro data hshort
    exact if_pos hshort

/-- Ciphertexts need not fill blocks: one byte under a secret of sixteen. -/
example : (encrypt (List.replicate 16 7) (List.replicate 16 0) [42]).map List.length = .ok 17 := by
  decide +kernel

end Sealed

end OnionTunnel
