import OnionTunnel.Bytes.Reader
import OnionTunnel.Proofs.Bytes.Numbers

/-!
# What readers take off the front

Each reader is characterised by one equation on a byte string that begins with the bytes it takes.
A format is read by splitting its bytes along the format and following these equations.
-/

namespace OnionTunnel

namespace Bytes

/-- A byte string of at least `n` bytes is `n` bytes and the rest. -/
theorem exists_append {b : Bytes} {n : Nat} (h : n ≤ b.length) :
    ∃ front rest : Bytes, b = front ++ rest ∧ front.length = n :=
  ⟨b.take n, b.drop n, (List.take_append_drop n b).symm, List.length_take_of_le h⟩

/-- What follows a beginning is found. -/
theorem afterPrefix?_append (start b : Bytes) : afterPrefix? start (start ++ b) = some b := by
  rw [afterPrefix?, if_pos (by simp), List.drop_left]

theorem eq_append_of_afterPrefix? {start b rest : Bytes} (h : afterPrefix? start b = some rest) :
    b = start ++ rest := by
  unfold afterPrefix? at h
  split at h
  · next hprefix =>
    obtain ⟨more, rfl⟩ := List.isPrefixOf_iff_prefix.1 hprefix
    rw [List.drop_left] at h
    rw [Option.some.inj h]
  · cases h

theorem word16_toNat {b : Bytes} (h : b.length = 2) :
    ofNat 2 (UInt16.ofNat (toNat b)).toNat = b := by
  have hlt := toNat_lt b
  rw [h] at hlt
  rw [UInt16.toNat_ofNat_of_lt' (by simpa using hlt), ofNat_toNat_of_length h]

theorem word32_toNat {b : Bytes} (h : b.length = 4) :
    ofNat 4 (UInt32.ofNat (toNat b)).toNat = b := by
  have hlt := toNat_lt b
  rw [h] at hlt
  rw [UInt32.toNat_ofNat_of_lt' (by simpa using hlt), ofNat_toNat_of_length h]

theorem ofNat_word16 (w : UInt16) : UInt16.ofNat (toNat (ofNat 2 w.toNat)) = w := by
  rw [toNat_ofNat (by simpa using w.toNat_lt), UInt16.ofNat_toNat]

theorem ofNat_word32 (w : UInt32) : UInt32.ofNat (toNat (ofNat 4 w.toNat)) = w := by
  rw [toNat_ofNat (by simpa using w.toNat_lt), UInt32.ofNat_toNat]

end Bytes

namespace Reader

variable {ε α β : Type}

@[simp] theorem pure_apply (a : α) (b : Bytes) :
    (Pure.pure a : Reader ε α) b = some (.ok (a, b)) := rfl

@[simp] theorem fail_apply (e : ε) (b : Bytes) : (fail e : Reader ε α) b = some (.error e) := rfl

@[simp] theorem remaining_apply (b : Bytes) :
    (remaining : Reader ε Nat) b = some (.ok (b.length, b)) := rfl

@[simp] theorem rest_apply (b : Bytes) : (rest : Reader ε Bytes) b = some (.ok (b, [])) := rfl

theorem bind_of_ok {r : Reader ε α} {f : α → Reader ε β} {b rest : Bytes} {a : α}
    (h : r b = some (.ok (a, rest))) : (r >>= f) b = f a rest := by
  show bind r f b = _
  rw [bind, h]

theorem bind_of_error {r : Reader ε α} {f : α → Reader ε β} {b : Bytes} {e : ε}
    (h : r b = some (.error e)) : (r >>= f) b = some (.error e) := by
  show bind r f b = _
  rw [bind, h]

theorem bytes_append {front rest : Bytes} {n : Nat} (h : front.length = n) :
    (bytes n : Reader ε Bytes) (front ++ rest) = some (.ok (front, rest)) := by
  subst h
  simp [bytes]

theorem number_append {front rest : Bytes} {n : Nat} (h : front.length = n) :
    (number n : Reader ε Nat) (front ++ rest) = some (.ok (front.toNat, rest)) :=
  bind_of_ok (bytes_append h)

theorem byte_append {front rest : Bytes} (h : front.length = 1) :
    (byte : Reader ε Nat) (front ++ rest) = some (.ok (front.toNat, rest)) :=
  number_append h

theorem word16_append {front rest : Bytes} (h : front.length = 2) :
    (word16 : Reader ε UInt16) (front ++ rest) = some (.ok (UInt16.ofNat front.toNat, rest)) :=
  bind_of_ok (number_append h)

theorem word32_append {front rest : Bytes} (h : front.length = 4) :
    (word32 : Reader ε UInt32) (front ++ rest) = some (.ok (UInt32.ofNat front.toNat, rest)) :=
  bind_of_ok (number_append h)

theorem word32_of_length {b : Bytes} (h : b.length = 4) :
    (word32 : Reader ε UInt32) b = some (.ok (UInt32.ofNat b.toNat, [])) := by
  have happ := @word32_append ε b [] h
  rwa [List.append_nil] at happ

/-- Words written one after the other are read back, and nothing else is taken. -/
theorem words32_append (ws : List UInt32) (rest : Bytes) :
    (words32 ws.length : Reader ε (List UInt32)) (ws.flatMap (fun w => Bytes.ofNat 4 w.toNat) ++ rest) =
      some (.ok (ws, rest)) := by
  induction ws with
  | nil => rfl
  | cons w ws ih =>
      rw [List.flatMap_cons, List.append_assoc, List.length_cons, words32,
        bind_of_ok (word32_append (Bytes.length_ofNat 4 _)), bind_of_ok ih, Bytes.ofNat_word32]
      rfl

/-- Bytes of whole words are the spelling of a list of words. -/
theorem exists_words32 (n : Nat) {b : Bytes} (h : b.length = n * 4) :
    ∃ ws : List UInt32, ws.length = n ∧ b = ws.flatMap fun w => Bytes.ofNat 4 w.toNat := by
  induction n generalizing b with
  | zero => exact ⟨[], rfl, by simpa using h⟩
  | succ n ih =>
      obtain ⟨front, rest, rfl, hfront⟩ := Bytes.exists_append (b := b) (n := 4) (by omega)
      rw [List.length_append, hfront] at h
      obtain ⟨ws, hlen, rfl⟩ := ih (b := rest) (by omega)
      exact ⟨UInt32.ofNat front.toNat :: ws, by simp [hlen],
        by rw [List.flatMap_cons, Bytes.word32_toNat hfront]⟩

end Reader

end OnionTunnel
