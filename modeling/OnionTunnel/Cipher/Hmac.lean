import OnionTunnel.Cipher.Sha256

/-!
# HMAC-SHA256

A tag is the hash of the key and the hash of the key and the message, the key masked in two ways.
A tag is accepted only whole: `verify` holds exactly of the 32 bytes of the tag.
-/

namespace OnionTunnel.Hmac

/-- The length of a tag. -/
def tagLength : Nat := 32

/-- A key in one block of 64 bytes: a longer key is hashed first. -/
def keyBlock (key : Bytes) : Bytes :=
  let short := if 64 < key.length then (sha256 key).bytes else key
  short ++ List.replicate (64 - short.length) 0

/-- The tag of a message under a key. -/
def sign (key message : Bytes) : Bytes :=
  let block := keyBlock key
  let inner := (sha256 (block.map (· ^^^ 0x36) ++ message)).bytes
  (sha256 (block.map (· ^^^ 0x5c) ++ inner)).bytes

/-- Whether bytes are the tag of a message under a key. -/
def verify (key message tag : Bytes) : Bool :=
  sign key message == tag

/-- A tag has 32 bytes. -/
@[simp] theorem length_sign (key message : Bytes) : (sign key message).length = tagLength :=
  (sha256 _).length_eq

/-- Exactly the tag is accepted. -/
theorem verify_iff (key message tag : Bytes) :
    verify key message tag = true ↔ tag = sign key message := by
  simp only [verify, beq_iff_eq]
  exact eq_comm

end OnionTunnel.Hmac
