import OnionTunnel.Bytes

/-!
# Cipher feedback

A block function makes a cipher for texts of any length: each block of text is added to the image
of the block of ciphertext before it, the first to the image of the initial vector. A last block
may be short. Both directions use the block function forwards.
-/

namespace OnionTunnel.Feedback

/-- The length of a block. -/
def block : Nat := 16

/-- The ciphertext of a text after a block of ciphertext. -/
def encrypt (f : Bytes → Bytes) (before : Bytes) (text : Bytes) : Bytes :=
  if _h : text = [] then []
  else
    let c := Bytes.xor (text.take block) (f before)
    c ++ encrypt f c (text.drop block)
termination_by text.length
decreasing_by
  have := List.length_pos_iff.2 _h
  simp only [List.length_drop, block]
  omega

/-- The text of a ciphertext after a block of ciphertext. -/
def decrypt (f : Bytes → Bytes) (before : Bytes) (cipher : Bytes) : Bytes :=
  if _h : cipher = [] then []
  else
    let c := cipher.take block
    Bytes.xor c (f before) ++ decrypt f c (cipher.drop block)
termination_by cipher.length
decreasing_by
  have := List.length_pos_iff.2 _h
  simp only [List.length_drop, block]
  omega

end OnionTunnel.Feedback
