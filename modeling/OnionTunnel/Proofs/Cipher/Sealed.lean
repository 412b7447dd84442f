import OnionTunnel.Cipher.Sealed
import OnionTunnel.Proofs.Cipher.Feedback

/-!
# Sealed texts open

A sealed text opens under the keys that sealed it, whatever the initial vector was. `Peels` says
that a text comes to light when one layer per pair of keys is taken off, the first pair's first.
-/

namespace OnionTunnel.Sealed

theorem wrap_of_valid {secret macKey vector text : Bytes} (h : Aes.validLength secret.length) :
    ∃ body, encrypt secret vector text = .ok body ∧
      wrap secret macKey vector text = .ok (Hmac.sign macKey body ++ body) := by
  have hbody : encrypt secret vector text = .ok _ := if_pos h
  exact ⟨_, hbody, by rw [wrap, hbody]; rfl⟩

/-- A sealed text is longer than the text by a tag and an initial vector. -/
theorem length_wrap {secret macKey vector text blob : Bytes} (hv : vector.length = vectorLength)
    (h : wrap secret macKey vector text = .ok blob) : blob.length = text.length + overhead := by
  by_cases hs : Aes.validLength secret.length
  · obtain ⟨body, hbody, hwrap⟩ := @wrap_of_valid secret macKey vector text hs
    rw [encrypt, if_pos hs] at hbody
    rw [hwrap] at h
    rw [← Except.ok.inj h, List.length_append, Hmac.length_sign, ← Except.ok.inj hbody,
      List.length_append, Feedback.length_encrypt (Aes.length_blockFunction _), hv, overhead]
    omega
  · simp [wrap, encrypt, hs, bind, Except.bind] at h

/-- Opening a sealed text under the same keys gives the text. -/
theorem unwrap_wrap {secret macKey vector text blob : Bytes} (hv : vector.length = vectorLength)
    (h : wrap secret macKey vector text = .ok blob) : unwrap secret macKey blob = .ok text := by
  have hlen := length_wrap hv h
  by_cases hs : Aes.validLength secret.length
  · obtain ⟨body, hbody, hwrap⟩ := @wrap_of_valid secret macKey vector text hs
    rw [hwrap] at h
    obtain rfl := Except.ok.inj h
    rw [encrypt, if_pos hs] at hbody
    have htag : (Hmac.sign macKey body).length = Hmac.tagLength := Hmac.length_sign _ _
    have hverify : Hmac.verify macKey body (Hmac.sign macKey body) = true :=
      (Hmac.verify_iff _ _ _).2 rfl
    rw [unwrap, if_neg (by omega), List.drop_left' htag, List.take_left' htag, if_pos hverify,
      decrypt, ← Except.ok.inj hbody, if_neg (by simp [hv]), if_pos hs, List.take_left' hv,
      List.drop_left' hv, Feedback.decrypt_encrypt (Aes.length_blockFunction _)]
  · simp [wrap, encrypt, hs, bind, Except.bind] at h

/-- What opens is longer than its text by a tag and an initial vector. -/
theorem length_unwrap {secret macKey blob text : Bytes} (h : unwrap secret macKey blob = .ok text) :
    blob.length = text.length + overhead := by
  unfold unwrap at h
  split at h
  · cases h
  · next hlong =>
    split at h
    · unfold decrypt at h
      split at h
      · cases h
      · split at h
        · rw [← Except.ok.inj h, Feedback.length_decrypt (Aes.length_blockFunction _),
            List.length_drop, List.length_drop]
          simp only [overhead] at hlong ⊢
          omega
        · cases h
    · cases h

/-- What opens was opened with a secret of a length that encrypts as well. -/
theorem valid_of_unwrap {secret macKey blob text : Bytes}
    (h : unwrap secret macKey blob = .ok text) : Aes.validLength secret.length := by
  unfold unwrap at h
  split at h
  · cases h
  · split at h
    · unfold decrypt at h
      split at h
      · cases h
      · split at h
        · next hvalid => exact hvalid
        · cases h
    · cases h

/-- A tag in front of the data is there, and is not the one under a key. -/
def Mistagged (macKey data : Bytes) : Prop :=
  overhead ≤ data.length ∧ data.take Hmac.tagLength ≠ Hmac.sign macKey (data.drop Hmac.tagLength)

theorem unwrap_of_short {secret macKey data : Bytes} (h : data.length < overhead) :
    unwrap secret macKey data = .error (.tooShort data.length overhead) :=
  if_pos h

theorem unwrap_of_mistagged {secret macKey data : Bytes} (h : Mistagged macKey data) :
    unwrap secret macKey data = .error .macMismatch := by
  obtain ⟨hlong, htag⟩ := h
  have hverify : ¬Hmac.verify macKey (data.drop Hmac.tagLength) (data.take Hmac.tagLength) = true :=
    fun h => htag ((Hmac.verify_iff _ _ _).1 h)
  rw [unwrap, if_neg (Nat.not_lt.2 hlong), if_neg hverify]

/-- Under a secret of a length that the cipher takes, data opens unless it is too short or carries
a wrong tag. -/
theorem unwrap_cases {secret : Bytes} (hs : Aes.validLength secret.length) (macKey data : Bytes) :
    data.length < overhead ∨ Mistagged macKey data ∨
      ∃ text, unwrap secret macKey data = .ok text := by
  by_cases hshort : data.length < overhead
  · exact .inl hshort
  by_cases htag : data.take Hmac.tagLength = Hmac.sign macKey (data.drop Hmac.tagLength)
  · have hroom : ¬(data.drop Hmac.tagLength).length < vectorLength := by
      rw [List.length_drop]
      unfold overhead at hshort
      omega
    refine .inr (.inr ?_)
    rw [unwrap, if_neg hshort, if_pos ((Hmac.verify_iff _ _ _).2 htag), decrypt, if_neg hroom,
      if_pos hs]
    exact ⟨_, rfl⟩
  · exact .inr (.inl ⟨Nat.not_lt.1 hshort, htag⟩)

/-- Taking layers off a blob in the order of the keys brings a text to light. Each pair of keys is
a secret and a tag key. -/
def Peels : List (Bytes × Bytes) → Bytes → Bytes → Prop
  | [], blob, text => blob = text
  | k :: keys, blob, text => ∃ inner, unwrap k.1 k.2 blob = .ok inner ∧ Peels keys inner text

@[simp] theorem peels_nil {blob text : Bytes} : Peels [] blob text ↔ blob = text := Iff.rfl

@[simp] theorem peels_cons {k : Bytes × Bytes} {keys : List (Bytes × Bytes)} {blob text : Bytes} :
    Peels (k :: keys) blob text ↔
      ∃ inner, unwrap k.1 k.2 blob = .ok inner ∧ Peels keys inner text := Iff.rfl

theorem Peels.length_eq {keys : List (Bytes × Bytes)} {blob text : Bytes}
    (h : Peels keys blob text) : blob.length = text.length + overhead * keys.length := by
  induction keys generalizing blob with
  | nil => rw [h]; rfl
  | cons k keys ih =>
      obtain ⟨inner, hinner, hrest⟩ := h
      rw [length_unwrap hinner, ih hrest, List.length_cons, Nat.mul_succ]
      omega

theorem Peels.unique {keys : List (Bytes × Bytes)} {blob text text' : Bytes}
    (h : Peels keys blob text) (h' : Peels keys blob text') : text = text' := by
  induction keys generalizing blob with
  | nil => exact h.symm.trans h'
  | cons k keys ih =>
      obtain ⟨inner, hinner, hrest⟩ := h
      obtain ⟨inner', hinner', hrest'⟩ := h'
      rw [hinner] at hinner'
      obtain rfl := Except.ok.inj hinner'
      exact ih hrest hrest'

/-- What two lists of keys take off is taken off one list after the other. -/
theorem peels_append {keys keys' : List (Bytes × Bytes)} {blob text : Bytes} :
    Peels (keys ++ keys') blob text ↔ ∃ inner, Peels keys blob inner ∧ Peels keys' inner text := by
  induction keys generalizing blob with
  | nil => simp
  | cons k keys ih =>
      simp only [List.cons_append, peels_cons, ih]
      constructor
      · rintro ⟨next, hnext, inner, hinner, htext⟩
        exact ⟨inner, ⟨next, hnext, hinner⟩, htext⟩
      · rintro ⟨inner, ⟨next, hnext, hinner⟩, htext⟩
        exact ⟨next, hnext, inner, hinner, htext⟩

theorem Peels.append {keys keys' : List (Bytes × Bytes)} {blob inner text : Bytes}
    (h : Peels keys blob inner) (h' : Peels keys' inner text) : Peels (keys ++ keys') blob text :=
  peels_append.2 ⟨inner, h, h'⟩

end OnionTunnel.Sealed
