import OnionTunnel.Cipher.Feedback

/-!
# Cipher feedback inverts

Decrypting adds the same block images that encrypting added, because both directions see the same
blocks of ciphertext. This holds for every block function whose images are whole blocks.
-/

namespace OnionTunnel

/-- Adding the same bytes twice gives the text back. -/
theorem Bytes.xor_xor {a b : Bytes} (h : a.length ≤ b.length) : xor (xor a b) b = a := by
  induction a generalizing b with
  | nil => rfl
  | cons x a ih =>
      cases b with
      | nil => simp at h
      | cons y b =>
          have hx : x ^^^ y ^^^ y = x := by
            rw [UInt8.xor_assoc, UInt8.xor_self, UInt8.xor_zero]
          have hrest := ih (b := b) (by simpa using h)
          simp only [xor, List.zipWith_cons_cons] at hrest ⊢
          rw [hx, hrest]

theorem Bytes.length_xor {a b : Bytes} (h : a.length ≤ b.length) : (xor a b).length = a.length := by
  simp only [xor, List.length_zipWith]
  omega

namespace Feedback

variable {f : Bytes → Bytes} (hf : ∀ b, (f b).length = block)
include hf

theorem length_first (before text : Bytes) :
    (Bytes.xor (text.take block) (f before)).length = (text.take block).length :=
  Bytes.length_xor (by rw [hf, List.length_take]; omega)

/-- A ciphertext is as long as its text. -/
theorem length_encrypt (before text : Bytes) :
    (encrypt f before text).length = text.length := by
  fun_induction encrypt f before text with
  | case1 => simp_all
  | case2 before text hne c ih =>
      have hfirst : c.length = (text.take block).length := length_first hf before text
      rw [List.length_append, ih, hfirst, ← List.length_append, List.take_append_drop]

/-- A text is as long as its ciphertext. -/
theorem length_decrypt (before cipher : Bytes) :
    (decrypt f before cipher).length = cipher.length := by
  fun_induction decrypt f before cipher with
  | case1 => simp_all
  | case2 before cipher hne c ih =>
      have hfirst : (Bytes.xor c (f before)).length = c.length := length_first hf before cipher
      rw [List.length_append, ih, hfirst, ← List.length_append, List.take_append_drop]

omit hf in
/-- What is as long as the first block of a text, and what is as long as its rest, are the first
block and the rest of the two together. -/
theorem take_drop_append {first rest text : Bytes}
    (hfirst : first.length = (text.take block).length)
    (hrest : rest.length = (text.drop block).length) :
    (first ++ rest).take block = first ∧ (first ++ rest).drop block = rest := by
  rw [List.length_take] at hfirst
  rw [List.length_drop] at hrest
  by_cases hlong : block ≤ text.length
  · have hc : first.length = block := by rw [hfirst, Nat.min_eq_left hlong]
    exact ⟨List.take_left' hc, List.drop_left' hc⟩
  · -- A short block is the last one, and nothing follows it.
    have hend : rest = [] := List.length_eq_zero_iff.1 (by omega)
    have hc : first.length ≤ block := by omega
    rw [hend, List.append_nil]
    exact ⟨List.take_of_length_le hc, List.drop_of_length_le hc⟩

omit hf in
theorem append_ne_nil {first rest text : Bytes} (hne : text ≠ [])
    (hfirst : first.length = (text.take block).length) : first ++ rest ≠ [] := by
  intro hnil
  rw [List.append_eq_nil_iff] at hnil
  have hpos : 0 < text.length := List.length_pos_iff.2 hne
  rw [hnil.1, List.length_take, block, List.length_nil] at hfirst
  omega

/-- Adding the image of a block twice gives a block of text back. -/
theorem xor_xor_take (before text : Bytes) :
    Bytes.xor (Bytes.xor (text.take block) (f before)) (f before) = text.take block :=
  Bytes.xor_xor (by rw [hf, List.length_take]; omega)

/-- Decrypting with the initial vector of the encryption gives the text back. -/
theorem decrypt_encrypt (before text : Bytes) :
    decrypt f before (encrypt f before text) = text := by
  fun_induction encrypt f before text with
  | case1 =>
      rw [decrypt, dif_pos rfl]
  | case2 before text hne c ih =>
      have hfirst : c.length = (text.take block).length := length_first hf before text
      obtain ⟨htake, hdrop⟩ := take_drop_append hfirst (length_encrypt hf c (text.drop block))
      have hblock : Bytes.xor c (f before) = text.take block := xor_xor_take hf before text
      rw [decrypt, dif_neg (append_ne_nil hne hfirst)]
      simp only [htake, hdrop, ih, hblock, List.take_append_drop]

/-- Encrypting what was decrypted, with the same initial vector, gives the ciphertext back. -/
theorem encrypt_decrypt (before cipher : Bytes) :
    encrypt f before (decrypt f before cipher) = cipher := by
  fun_induction decrypt f before cipher with
  | case1 =>
      rw [encrypt, dif_pos rfl]
  | case2 before cipher hne c ih =>
      have hfirst : (Bytes.xor c (f before)).length = (cipher.take block).length :=
        length_first hf before cipher
      obtain ⟨htake, hdrop⟩ := take_drop_append hfirst (length_decrypt hf c (cipher.drop block))
      have hblock : Bytes.xor (Bytes.xor c (f before)) (f before) = cipher.take block :=
        xor_xor_take hf before cipher
      rw [encrypt, dif_neg (append_ne_nil hne hfirst)]
      -- Both directions go on from the same block of ciphertext.
      have hchain : cipher.take block = c := rfl
      simp only [htake, hdrop, hblock, hchain, ih]
      exact List.take_append_drop block cipher

end Feedback

end OnionTunnel
