import OnionTunnel.Cipher.Aes
import OnionTunnel.Cipher.Error
import OnionTunnel.Cipher.Feedback
import OnionTunnel.Cipher.Hmac

/-!
# Sealed texts

A text is encrypted under a secret with an initial vector in front, and the whole is tagged:
tag, initial vector, ciphertext. Opening checks the length, then the tag, and only then the
secret's length, and decrypts last.
-/

namespace OnionTunnel.Sealed

/-- The length of an initial vector. -/
def vectorLength : Nat := 16

/-- The initial vector and the ciphertext of a text. -/
def encrypt (secret vector text : Bytes) : Except CipherError Bytes :=
  if Aes.validLength secret.length then
    .ok (vector ++ Feedback.encrypt (Aes.blockFunction (Aes.schedule secret)) vector text)
  else .error (.keyLength secret.length)

/-- The text of an initial vector and a ciphertext. -/
def decrypt (secret data : Bytes) : Except CipherError Bytes :=
  if data.length < vectorLength then .error (.tooShort data.length vectorLength)
  else if Aes.validLength secret.length then
    .ok (Feedback.decrypt (Aes.blockFunction (Aes.schedule secret)) (data.take vectorLength)
      (data.drop vectorLength))
  else .error (.keyLength secret.length)

/-- What sealing adds to a text. -/
def overhead : Nat := Hmac.tagLength + vectorLength

/-- A text, encrypted and tagged. -/
def wrap (secret macKey vector text : Bytes) : Except CipherError Bytes := do
  let body ← encrypt secret vector text
  return Hmac.sign macKey body ++ body

/-- The text of a sealed blob. -/
def unwrap (secret macKey blob : Bytes) : Except CipherError Bytes :=
  if blob.length < overhead then .error (.tooShort blob.length overhead)
  else if Hmac.verify macKey (blob.drop Hmac.tagLength) (blob.take Hmac.tagLength) then
    decrypt secret (blob.drop Hmac.tagLength)
  else .error .macMismatch

end OnionTunnel.Sealed
