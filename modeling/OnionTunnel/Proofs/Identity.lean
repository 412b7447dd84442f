import OnionTunnel.Identity
import OnionTunnel.Proofs.Bytes.Hex

/-!
# The text of an identity

An identity is read back from its text, and from nothing else but the same digits with some of the
letters capital. Every other text is refused for its first fault: an odd number of bytes, then the
first byte that is no digit, then a wrong number of digits.
-/

namespace OnionTunnel

open Hex (IsDigit)

namespace Identity

variable {s : String} {i : Identity}

theorem parse_of_odd (h : s.utf8ByteSize % 2 = 1) : parse s = .error (.hex .oddLength) := by
  rw [← Bytes.length_ofText] at h
  rw [parse, Hex.decode, Hex.decodeBytes, if_pos h]
  rfl

theorem parse_of_bad {front rest : Bytes} {x : UInt8} (heven : s.utf8ByteSize % 2 = 0)
    (hs : Bytes.ofText s = front ++ x :: rest) (hfront : ∀ y ∈ front, IsDigit (Char.ofUInt8 y))
    (hx : ¬IsDigit (Char.ofUInt8 x)) : parse s = .error (.hex (.badDigit x front.length)) := by
  rw [← Bytes.length_ofText, hs] at heven
  have hbad := Hex.decodePairs_of_bad 0 heven hfront hx
  rw [Nat.zero_add] at hbad
  rw [parse, Hex.decode, Hex.decodeBytes, hs, if_neg (by omega), hbad]
  rfl

/-- Digits are read as the bytes whose text is the same in lower case. -/
theorem parse_of_digits (heven : s.length % 2 = 0) (h : ∀ c ∈ s.toList, IsDigit c) :
    ∃ read, parse s = ofBytes read ∧ Hex.encode read = s.toLower ∧ s.length = 2 * read.length := by
  have hbytes := Hex.ofText_of_digits h
  have hback : ∀ c ∈ s.toList, Char.ofUInt8 (UInt8.ofNat c.toNat) = c :=
    fun c hc => Bytes.ofUInt8_ofNat (h c hc).ascii
  have hlength : (Bytes.ofText s).length % 2 = 0 := by
    rw [Bytes.length_ofText, Hex.utf8ByteSize_of_digits h, heven]
  have hdigits : ∀ x ∈ Bytes.ofText s, IsDigit (Char.ofUInt8 x) := by
    rw [hbytes, List.forall_mem_map]
    intro c hc
    rw [hback c hc]
    exact h c hc
  obtain ⟨read, hread, htext⟩ := Hex.decodePairs_of_digits 0 hlength hdigits
  have hlower : Hex.encode read = s.toLower := by
    rw [hbytes, List.map_map] at htext
    apply String.toList_inj.1
    rw [Hex.toList_encode, htext, Hex.toList_toLower]
    apply List.map_congr_left
    intro c hc
    rw [Function.comp_apply, hback c hc]
  refine ⟨read, ?_, hlower, ?_⟩
  · rw [parse, Hex.decode, Hex.decodeBytes, if_neg (by omega), hread]
    rfl
  · rw [← Hex.length_encode, hlower, Hex.length_toLower]

/-- What is read has the same text in lower case, and this text has 64 digits. -/
theorem text_of_parse (h : parse s = .ok i) :
    (s.length = 64 ∧ ∀ c ∈ s.toList, IsDigit c) ∧ i.text = s.toLower := by
  obtain heven | hodd := Nat.mod_two_eq_zero_or_one s.utf8ByteSize
  · obtain hdigits | ⟨front, x, rest, hs, hfront, hx⟩ := Hex.digits_or_bad (Bytes.ofText s)
    · have hchars := Hex.isDigit_of_bytes hdigits
      rw [Hex.utf8ByteSize_of_digits hchars] at heven
      obtain ⟨read, hread, htext, hlength⟩ := parse_of_digits heven hchars
      rw [hread, ofBytes] at h
      split at h
      · next hthirtyTwo =>
        obtain rfl := Except.ok.inj h
        exact ⟨⟨by omega, hchars⟩, htext⟩
      · cases h
    · cases (parse_of_bad heven hs hfront hx).symm.trans h
  · cases (parse_of_odd hodd).symm.trans h

/-- An identity is read back from its text. -/
theorem parse_text_self (i : Identity) : parse i.text = .ok i := by
  have hlength : i.text.length = 64 := by
    rw [text, Hex.length_encode, bytes, i.digest.length_eq]
  have hdigits : ∀ c ∈ i.text.toList, IsDigit c := fun c hc => (Hex.lower_of_mem_encode hc).1
  have hlower : i.text.toLower = i.text := by
    apply String.toList_inj.1
    rw [Hex.toList_toLower]
    calc
      i.text.toList.map Char.toLower = i.text.toList.map id :=
        List.map_congr_left fun c hc => (Hex.lower_of_mem_encode hc).2
      _ = i.text.toList := List.map_id _
  obtain ⟨read, hread, htext, -⟩ := parse_of_digits (by rw [hlength]) hdigits
  rw [hlower] at htext
  rw [hread, Hex.encode_injective htext]
  exact dif_pos i.digest.length_eq

/-- The texts that are read as identities are those of 64 digits of either case, and each text that
is refused is refused for its first fault.

An identity is read back from its text, and what is read from a text has the same text in lower
case. Of a text that is refused the number of bytes is looked at first, then the bytes from the
left, then the number of digits. -/
theorem parses_exactly_digits :
    (∀ i : Identity, parse i.text = .ok i) ∧
    (∀ s i, parse s = .ok i → i.text = s.toLower) ∧
    ∀ s : String,
      ((∃ i, parse s = .ok i) ↔ s.length = 64 ∧ ∀ c ∈ s.toList, IsDigit c) ∧
      (s.utf8ByteSize % 2 = 1 → parse s = .error (.hex .oddLength)) ∧
      (∀ front x rest, s.utf8ByteSize % 2 = 0 → Bytes.ofText s = front ++ x :: rest →
        (∀ y ∈ front, IsDigit (Char.ofUInt8 y)) → ¬IsDigit (Char.ofUInt8 x) →
        parse s = .error (.hex (.badDigit x front.length))) ∧
      (s.utf8ByteSize % 2 = 0 → (∀ x ∈ Bytes.ofText s, IsDigit (Char.ofUInt8 x)) →
        s.utf8ByteSize ≠ 64 → parse s = .error (.length (s.utf8ByteSize / 2))) := by
  refine ⟨parse_text_self, fun s i h => (text_of_parse h).2, ?_⟩
  intro s
  refine ⟨⟨?_, ?_⟩, parse_of_odd, fun _ _ _ => parse_of_bad, ?_⟩
  · rintro ⟨i, h⟩
    exact (text_of_parse h).1
  · rintro ⟨hlength, hdigits⟩
    obtain ⟨read, hread, -, hread'⟩ := parse_of_digits (by rw [hlength]) hdigits
    exact ⟨_, hread.trans (dif_pos (by omega))⟩
  · intro heven hbytes hlength
    have hdigits := Hex.isDigit_of_bytes hbytes
    rw [Hex.utf8ByteSize_of_digits hdigits] at heven hlength ⊢
    obtain ⟨read, hread, -, hsame⟩ := parse_of_digits heven hdigits
    rw [hread, ofBytes, dif_neg (by omega), hsame, Nat.mul_div_cancel_left _ (by decide)]

/-- The position of a fault counts bytes, and a character from 128 on has no digit among its bytes. -/
example : parse "0é0" = .error (.hex (.badDigit 0xc3 1)) := by decide +kernel

end Identity

end OnionTunnel
