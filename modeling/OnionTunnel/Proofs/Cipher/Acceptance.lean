import OnionTunnel.Proofs.Cipher.Inversion

/-!
# Exactly sealed texts open

A blob opens if and only if it is what sealing gives for the initial vector that it stores. What
does not open is turned down for the first fault in a fixed order: the blob's length, the tag, the
secret's length. So a change to a sealed blob is noticed unless the changed blob carries the tag of
its changed body.
-/

namespace OnionTunnel.Sealed

/-- The initial vector that a blob stores behind its tag. -/
def storedVector (blob : Bytes) : Bytes :=
  (blob.drop Hmac.tagLength).take vectorLength

section

variable {secret macKey blob : Bytes}

/-- A blob of the least length has room for an initial vector behind the tag. -/
theorem room_for_vector (hlong : overhead ≤ blob.length) :
    vectorLength ≤ (blob.drop Hmac.tagLength).length := by
  rw [List.length_drop]
  unfold overhead at hlong
  omega

/-- Behind the right tag, opening is decryption. -/
theorem unwrap_of_tagged (hlong : overhead ≤ blob.length)
    (htag : blob.take Hmac.tagLength = Hmac.sign macKey (blob.drop Hmac.tagLength)) :
    unwrap secret macKey blob = decrypt secret (blob.drop Hmac.tagLength) := by
  rw [unwrap, if_neg (Nat.not_lt.2 hlong), if_pos ((Hmac.verify_iff _ _ _).2 htag)]

theorem unwrap_of_invalid (hlong : overhead ≤ blob.length)
    (htag : blob.take Hmac.tagLength = Hmac.sign macKey (blob.drop Hmac.tagLength))
    (hsecret : ¬Aes.validLength secret.length) :
    unwrap secret macKey blob = .error (.keyLength secret.length) := by
  rw [unwrap_of_tagged hlong htag, decrypt, if_neg (Nat.not_lt.2 (room_for_vector hlong)),
    if_neg hsecret]

/-- What opens is long enough and carries the tag of its body. -/
theorem tagged_of_unwrap {text : Bytes} (h : unwrap secret macKey blob = .ok text) :
    overhead ≤ blob.length ∧
      blob.take Hmac.tagLength = Hmac.sign macKey (blob.drop Hmac.tagLength) := by
  have hlong : overhead ≤ blob.length := by
    by_contra hshort
    rw [unwrap_of_short (Nat.lt_of_not_ge hshort)] at h
    cases h
  refine ⟨hlong, ?_⟩
  by_contra htag
  rw [unwrap_of_mistagged ⟨hlong, htag⟩] at h
  cases h

/-- Sealing what a blob opens to, with the initial vector that it stores, gives the blob back. -/
theorem wrap_unwrap {text : Bytes} (h : unwrap secret macKey blob = .ok text) :
    wrap secret macKey (storedVector blob) text = .ok blob := by
  obtain ⟨hlong, htag⟩ := tagged_of_unwrap h
  have hsecret := inverts_of_valid (valid_of_unwrap h)
  obtain ⟨text', hopened, hsealed⟩ := hsecret.data _ (room_for_vector hlong)
  rw [unwrap_of_tagged hlong htag, hopened] at h
  obtain rfl := Except.ok.inj h
  have hbody : encrypt secret (storedVector blob) text' = .ok (blob.drop Hmac.tagLength) := hsealed
  rw [wrap, hbody]
  show Except.ok (Hmac.sign macKey (blob.drop Hmac.tagLength) ++ blob.drop Hmac.tagLength) = _
  rw [← htag, List.take_append_drop]

/-- A blob opens exactly if it is sealed for the initial vector that it stores. -/
theorem unwrap_eq_ok_iff (hlong : overhead ≤ blob.length) {text : Bytes} :
    unwrap secret macKey blob = .ok text ↔
      wrap secret macKey (storedVector blob) text = .ok blob :=
  ⟨wrap_unwrap, unwrap_wrap (List.length_take_of_le (room_for_vector hlong))⟩

/-- A sealed blob is long enough and carries the tag of its body. -/
theorem tagged_of_wrap {vector text : Bytes} (hv : vector.length = vectorLength)
    (h : wrap secret macKey vector text = .ok blob) : overhead ≤ blob.length ∧
      blob.take Hmac.tagLength = Hmac.sign macKey (blob.drop Hmac.tagLength) :=
  tagged_of_unwrap (unwrap_wrap hv h)

end

/-- Under a secret and a tag key exactly what was sealed opens, each fault has its error, and a
changed blob does not open unless it carries the tag of its changed body. -/
structure OpensSealed (secret macKey : Bytes) : Prop where
  /-- What opens is long enough, carries the tag of the rest, has a secret of a length in use, and
  is the sealed text. -/
  accepts (blob text : Bytes) : unwrap secret macKey blob = .ok text ↔
    48 ≤ blob.length ∧ blob.take 32 = Hmac.sign macKey (blob.drop 32) ∧
      secret.length ∈ [16, 24, 32] ∧
      wrap secret macKey ((blob.drop 32).take 16) text = .ok blob
  /-- The length is looked at first. -/
  short (blob : Bytes) : unwrap secret macKey blob = .error (.tooShort blob.length 48) ↔
    blob.length < 48
  /-- The tag is looked at before the secret. -/
  mismatch (blob : Bytes) : unwrap secret macKey blob = .error .macMismatch ↔
    48 ≤ blob.length ∧ blob.take 32 ≠ Hmac.sign macKey (blob.drop 32)
  /-- The secret's length is looked at last. -/
  keyLength (blob : Bytes) : unwrap secret macKey blob = .error (.keyLength secret.length) ↔
    48 ≤ blob.length ∧ blob.take 32 = Hmac.sign macKey (blob.drop 32) ∧
      secret.length ∉ [16, 24, 32]
  /-- There are no other errors. -/
  faults (blob : Bytes) (e : CipherError) : unwrap secret macKey blob = .error e →
    e = .tooShort blob.length 48 ∨ e = .macMismatch ∨ e = .keyLength secret.length
  /-- A sealed blob whose tag is changed does not open. -/
  tagChanged (vector text blob changed : Bytes) : vector.length = 16 →
    wrap secret macKey vector text = .ok blob → changed.length = blob.length →
    changed.take 32 ≠ blob.take 32 → changed.drop 32 = blob.drop 32 →
    unwrap secret macKey changed = .error .macMismatch
  /-- A sealed blob whose body is changed does not open unless the tag is that of the new body. -/
  bodyChanged (vector text blob changed : Bytes) : vector.length = 16 →
    wrap secret macKey vector text = .ok blob → changed.length = blob.length →
    changed.take 32 = blob.take 32 → changed.drop 32 ≠ blob.drop 32 →
    (unwrap secret macKey changed = .error .macMismatch ↔
      Hmac.sign macKey (changed.drop 32) ≠ Hmac.sign macKey (blob.drop 32))

/-- How opening ends: with the first fault, if there is one, and else with a text. -/
theorem unwrap_outcome (secret macKey blob : Bytes) :
    (blob.length < overhead ∧
        unwrap secret macKey blob = .error (.tooShort blob.length overhead)) ∨
      (Mistagged macKey blob ∧ unwrap secret macKey blob = .error .macMismatch) ∨
      (overhead ≤ blob.length ∧
        blob.take Hmac.tagLength = Hmac.sign macKey (blob.drop Hmac.tagLength) ∧
        ¬Aes.validLength secret.length ∧
        unwrap secret macKey blob = .error (.keyLength secret.length)) ∨
      (overhead ≤ blob.length ∧
        blob.take Hmac.tagLength = Hmac.sign macKey (blob.drop Hmac.tagLength) ∧
        Aes.validLength secret.length ∧ ∃ text, unwrap secret macKey blob = .ok text) := by
  by_cases hshort : blob.length < overhead
  · exact .inl ⟨hshort, unwrap_of_short hshort⟩
  have hlong : overhead ≤ blob.length := Nat.not_lt.1 hshort
  by_cases htag : blob.take Hmac.tagLength = Hmac.sign macKey (blob.drop Hmac.tagLength)
  case neg => exact .inr (.inl ⟨⟨hlong, htag⟩, unwrap_of_mistagged ⟨hlong, htag⟩⟩)
  by_cases hsecret : Aes.validLength secret.length
  case neg => exact .inr (.inr (.inl ⟨hlong, htag, hsecret, unwrap_of_invalid hlong htag hsecret⟩))
  obtain hshort' | hmistagged | hopened := unwrap_cases hsecret macKey blob
  · exact absurd hshort' hshort
  · exact absurd htag hmistagged.2
  · exact .inr (.inr (.inr ⟨hlong, htag, hsecret, hopened⟩))

theorem unwrap_eq_macMismatch_iff (secret macKey blob : Bytes) :
    unwrap secret macKey blob = .error .macMismatch ↔ Mistagged macKey blob := by
  refine ⟨?_, unwrap_of_mistagged⟩
  intro h
  obtain ⟨-, he⟩ | ⟨htag, -⟩ | ⟨-, -, -, he⟩ | ⟨-, -, -, text, he⟩ :=
    unwrap_outcome secret macKey blob
  · rw [he] at h
    cases h
  · exact htag
  · rw [he] at h
    cases h
  · rw [he] at h
    cases h

theorem opensSealed (secret macKey : Bytes) : OpensSealed secret macKey := by
  have hvalid : Aes.validLength secret.length ↔ secret.length ∈ [16, 24, 32] := by
    simp [Aes.validLength]
  constructor
  case accepts =>
    intro blob text
    constructor
    · intro h
      obtain ⟨hlong, htag⟩ := tagged_of_unwrap h
      exact ⟨hlong, htag, hvalid.1 (valid_of_unwrap h), wrap_unwrap h⟩
    · rintro ⟨hlong, -, -, hsealed⟩
      exact (unwrap_eq_ok_iff hlong).2 hsealed
  case short =>
    intro blob
    refine ⟨?_, unwrap_of_short⟩
    intro h
    obtain ⟨hshort, -⟩ | ⟨-, he⟩ | ⟨-, -, -, he⟩ | ⟨-, -, -, text, he⟩ :=
      unwrap_outcome secret macKey blob
    · exact hshort
    all_goals
      rw [he] at h
      cases h
  case mismatch => exact unwrap_eq_macMismatch_iff secret macKey
  case keyLength =>
    intro blob
    constructor
    · intro h
      obtain ⟨-, he⟩ | ⟨-, he⟩ | ⟨hlong, htag, hsecret, -⟩ | ⟨-, -, -, text, he⟩ :=
        unwrap_outcome secret macKey blob
      case inr.inr.inl => exact ⟨hlong, htag, fun hmem => hsecret (hvalid.2 hmem)⟩
      all_goals
        rw [he] at h
        cases h
    · rintro ⟨hlong, htag, hsecret⟩
      exact unwrap_of_invalid hlong htag fun h => hsecret (hvalid.1 h)
  case faults =>
    intro blob e h
    obtain ⟨-, he⟩ | ⟨-, he⟩ | ⟨-, -, -, he⟩ | ⟨-, -, -, text, he⟩ :=
      unwrap_outcome secret macKey blob
    · exact .inl (Except.error.inj (h.symm.trans he))
    · exact .inr (.inl (Except.error.inj (h.symm.trans he)))
    · exact .inr (.inr (Except.error.inj (h.symm.trans he)))
    · rw [he] at h
      cases h
  case tagChanged =>
    intro vector text blob changed hv hsealed hlength htag hbody
    obtain ⟨hlong, htagged⟩ := tagged_of_wrap hv hsealed
    -- The body has one tag, and the changed blob carries another.
    refine unwrap_of_mistagged ⟨hlength ▸ hlong, fun h => htag ?_⟩
    exact h.trans ((congrArg (Hmac.sign macKey) hbody).trans htagged.symm)
  case bodyChanged =>
    intro vector text blob changed hv hsealed hlength htag _
    obtain ⟨hlong, htagged⟩ := tagged_of_wrap hv hsealed
    have hcarried : changed.take Hmac.tagLength = Hmac.sign macKey (blob.drop Hmac.tagLength) :=
      htag.trans htagged
    rw [unwrap_eq_macMismatch_iff, Mistagged, hcarried]
    exact ⟨fun h => h.2.symm, fun h => ⟨hlength ▸ hlong, h.symm⟩⟩

/-- For every secret and every tag key, exactly sealed blobs open, and exactly the full tag of a
message is accepted for it. -/
theorem opens_exactly_sealed (secret macKey : Bytes) :
    OpensSealed secret macKey ∧
      ∀ message tag, Hmac.verify macKey message tag = true ↔
        tag.length = 32 ∧ tag = Hmac.sign macKey message := by
  refine ⟨opensSealed secret macKey, fun message tag => ?_⟩
  rw [Hmac.verify_iff]
  refine ⟨fun h => ⟨?_, h⟩, And.right⟩
  rw [h, Hmac.length_sign]
  rfl

end OnionTunnel.Sealed
