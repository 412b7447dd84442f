import Mathlib.Data.List.Induction
import OnionTunnel.Bytes.Hex
import OnionTunnel.Proofs.Bytes.Text

/-!
# Hexadecimal texts

Digits of either case are read as the bytes whose text is the same in lower case, and different
bytes have different texts. A text that is not read has its fault at the first byte that is no
digit, unless the number of its bytes is odd.
-/

namespace OnionTunnel.Hex

/-- An ASCII digit of either case. -/
def IsDigit (c : Char) : Prop :=
  ('0' ≤ c ∧ c ≤ '9') ∨ ('a' ≤ c ∧ c ≤ 'f') ∨ ('A' ≤ c ∧ c ≤ 'F')

instance (c : Char) : Decidable (IsDigit c) :=
  inferInstanceAs (Decidable (_ ∨ _ ∨ _))

theorem IsDigit.ascii {c : Char} (h : IsDigit c) : c.toNat < 128 := by
  obtain ⟨-, hc⟩ | ⟨-, hc⟩ | ⟨-, hc⟩ := h
  · exact Nat.lt_of_le_of_lt (UInt32.le_iff_toNat_le.1 hc) (by decide)
  · exact Nat.lt_of_le_of_lt (UInt32.le_iff_toNat_le.1 hc) (by decide)
  · exact Nat.lt_of_le_of_lt (UInt32.le_iff_toNat_le.1 hc) (by decide)

/-! ### Bytes -/

/-- What the value of a byte says of the character with the same number. -/
def Valued (x : UInt8) : Option UInt8 → Prop
  | some v => IsDigit (Char.ofUInt8 x) ∧ v < 16 ∧ digit v.toNat = (Char.ofUInt8 x).toLower
  | none => ¬IsDigit (Char.ofUInt8 x)

instance (x : UInt8) : (v : Option UInt8) → Decidable (Valued x v)
  | some _ => inferInstanceAs (Decidable (_ ∧ _ ∧ _))
  | none => inferInstanceAs (Decidable (¬_))

theorem valued (x : UInt8) : Valued x (value? x) := by
  have hall : ∀ n < 256, Valued (UInt8.ofNat n) (value? (UInt8.ofNat n)) := by decide +kernel
  rw [← UInt8.ofNat_toNat (x := x)]
  exact hall x.toNat x.toNat_lt

/-- A digit has a value below sixteen, and is written in lower case for it. -/
theorem valueAt_of_isDigit {x : UInt8} (h : IsDigit (Char.ofUInt8 x)) (position : Nat) :
    ∃ v : UInt8, valueAt x position = .ok v ∧ v < 16 ∧
      digit v.toNat = (Char.ofUInt8 x).toLower := by
  have hvalued := valued x
  rw [valueAt]
  cases hv : value? x with
  | none =>
    rw [hv] at hvalued
    exact absurd h hvalued
  | some v =>
    rw [hv] at hvalued
    exact ⟨v, rfl, hvalued.2⟩

theorem valueAt_of_not_isDigit {x : UInt8} (h : ¬IsDigit (Char.ofUInt8 x)) (position : Nat) :
    valueAt x position = .error (.badDigit x position) := by
  have hvalued := valued x
  rw [valueAt]
  cases hv : value? x with
  | none => rfl
  | some v =>
    rw [hv] at hvalued
    exact absurd hvalued.1 h

/-- The two digits of a byte are the digits of its halves. -/
theorem ofByte_halves {h l : UInt8} (hh : h < 16) (hl : l < 16) :
    ofByte (h * 16 + l) = [digit h.toNat, digit l.toNat] := by
  have hh' : h.toNat < 16 := UInt8.lt_iff_toNat_lt.1 hh
  have hl' : l.toNat < 16 := UInt8.lt_iff_toNat_lt.1 hl
  have hsixteen : (16 : UInt8).toNat = 16 := rfl
  have hbyte : (h * 16 + l).toNat = h.toNat * 16 + l.toNat := by
    rw [UInt8.toNat_add, UInt8.toNat_mul, hsixteen]
    omega
  have hhigh : (h.toNat * 16 + l.toNat) / 16 = h.toNat := by omega
  have hlow : (h.toNat * 16 + l.toNat) % 16 = l.toNat := by omega
  rw [ofByte, hbyte, hhigh, hlow]

theorem digit_injective : ∀ m < 16, ∀ n < 16, digit m = digit n → m = n := by
  decide

theorem digit_lower : ∀ n < 16, IsDigit (digit n) ∧ (digit n).toLower = digit n := by
  decide

theorem ofByte_injective {x y : UInt8} (h : ofByte x = ofByte y) : x = y := by
  obtain ⟨hhigh, hlow⟩ := List.cons.inj h
  have hx := x.toNat_lt
  have hy := y.toNat_lt
  have hhigh' := digit_injective _ (by omega) _ (by omega) hhigh
  have hlow' := digit_injective _ (by omega) _ (by omega) (List.cons.inj hlow).1
  apply UInt8.toNat_inj.1
  omega

/-! ### Writing -/

theorem toList_encode (b : Bytes) : (encode b).toList = b.flatMap ofByte :=
  String.toList_ofList

theorem length_encode (b : Bytes) : (encode b).length = 2 * b.length := by
  rw [encode, String.length_ofList, List.length_flatMap]
  simp [ofByte, Nat.mul_comm]

/-- Different bytes have different texts. -/
theorem encode_injective {b b' : Bytes} (h : encode b = encode b') : b = b' := by
  have hdigits := congrArg String.toList h
  rw [toList_encode, toList_encode] at hdigits
  clear h
  induction b generalizing b' with
  | nil =>
    cases b' with
    | nil => rfl
    | cons y b' => cases hdigits
  | cons x b ih =>
    cases b' with
    | nil => cases hdigits
    | cons y b' =>
      obtain ⟨hfirst, hrest⟩ := List.append_inj hdigits rfl
      rw [ofByte_injective hfirst, ih hrest]

/-- A text that is written has digits only, and no capital ones. -/
theorem lower_of_mem_encode {b : Bytes} {c : Char} (h : c ∈ (encode b).toList) :
    IsDigit c ∧ c.toLower = c := by
  rw [toList_encode] at h
  obtain ⟨x, -, hx⟩ := List.mem_flatMap.1 h
  have hlt := x.toNat_lt
  simp only [ofByte, List.mem_cons, List.not_mem_nil, or_false] at hx
  obtain rfl | rfl := hx
  · exact digit_lower _ (by omega)
  · exact digit_lower _ (by omega)

/-! ### Reading -/

/-- Digits in pairs are read as the bytes that are written with the same digits in lower case. -/
theorem decodePairs_of_digits {b : Bytes} (position : Nat) (heven : b.length % 2 = 0)
    (h : ∀ x ∈ b, IsDigit (Char.ofUInt8 x)) : ∃ read, decodePairs position b = .ok read ∧
      read.flatMap ofByte = b.map fun x => (Char.ofUInt8 x).toLower := by
  fun_induction decodePairs position b with
  | case1 position hi lo rest ih =>
    simp only [List.length_cons] at heven
    simp only [List.forall_mem_cons] at h
    obtain ⟨hhi, hlo, hrest⟩ := h
    obtain ⟨vh, hvh, hvh16, hdh⟩ := valueAt_of_isDigit hhi position
    obtain ⟨vl, hvl, hvl16, hdl⟩ := valueAt_of_isDigit hlo (position + 1)
    obtain ⟨more, hmore, htext⟩ := ih (by omega) hrest
    refine ⟨(vh * 16 + vl) :: more, ?_, ?_⟩
    · rw [hvh, hvl, hmore]
      rfl
    · rw [List.flatMap_cons, ofByte_halves hvh16 hvl16, hdh, hdl, htext]
      rfl
  | case2 b position hshort =>
    cases b with
    | nil => exact ⟨[], rfl, rfl⟩
    | cons x b =>
      cases b with
      | nil => cases heven
      | cons y b => exact (hshort x y b rfl).elim

/-- Reading in pairs stops at the first byte that is no digit. -/
theorem decodePairs_of_bad {front rest : Bytes} {x : UInt8} (position : Nat)
    (heven : (front ++ x :: rest).length % 2 = 0)
    (hfront : ∀ y ∈ front, IsDigit (Char.ofUInt8 y)) (hx : ¬IsDigit (Char.ofUInt8 x)) :
    decodePairs position (front ++ x :: rest) = .error (.badDigit x (position + front.length)) := by
  induction front using List.twoStepInduction generalizing position with
  | nil =>
    cases rest with
    | nil => cases heven
    | cons lo rest =>
      rw [List.nil_append, decodePairs, valueAt_of_not_isDigit hx]
      rfl
  | singleton y =>
    obtain ⟨v, hv, -⟩ := valueAt_of_isDigit (hfront y List.mem_cons_self) position
    rw [List.singleton_append, decodePairs, hv, valueAt_of_not_isDigit hx]
    rfl
  | cons_cons y z front ih =>
    simp only [List.forall_mem_cons] at hfront
    obtain ⟨hy, hz, hfront⟩ := hfront
    obtain ⟨v, hv, -⟩ := valueAt_of_isDigit hy position
    obtain ⟨w, hw, -⟩ := valueAt_of_isDigit hz (position + 1)
    simp only [List.cons_append, List.length_cons] at heven
    have hmore := ih (position + 2) (by omega) hfront
    have hposition : position + (y :: z :: front).length = position + 2 + front.length := by
      simp only [List.length_cons]
      omega
    rw [List.cons_append, List.cons_append, decodePairs, hv, hw, hmore, hposition]
    rfl

/-! ### Texts of digits -/

theorem toList_toLower (s : String) : s.toLower.toList = s.toList.map Char.toLower :=
  String.toList_map

theorem length_toLower (s : String) : s.toLower.length = s.length :=
  String.length_map

/-- The bytes of a text of digits are the numbers of its characters. -/
theorem ofText_of_digits {s : String} (h : ∀ c ∈ s.toList, IsDigit c) :
    Bytes.ofText s = s.toList.map fun c => UInt8.ofNat c.toNat := by
  rw [Bytes.ofText_eq, Bytes.ofChars_ascii fun c hc => (h c hc).ascii]

theorem utf8ByteSize_of_digits {s : String} (h : ∀ c ∈ s.toList, IsDigit c) :
    s.utf8ByteSize = s.length := by
  rw [← Bytes.length_ofText, ofText_of_digits h, List.length_map, String.length_toList]

/-- A text whose bytes are digits has digits for its characters. -/
theorem isDigit_of_bytes {s : String} (h : ∀ x ∈ Bytes.ofText s, IsDigit (Char.ofUInt8 x)) :
    ∀ c ∈ s.toList, IsDigit c := by
  rw [Bytes.ofText_eq] at h
  have hbytes : ∀ x ∈ Bytes.ofChars s.toList, x < 128 :=
    fun x hx => UInt8.lt_iff_toNat_lt.2 (h x hx).ascii
  have hascii := Bytes.toNat_lt_of_ofChars hbytes
  rw [Bytes.ofChars_ascii hascii] at h
  intro c hc
  have hdigit := h _ (List.mem_map_of_mem hc)
  rwa [Bytes.ofUInt8_ofNat (hascii c hc)] at hdigit

/-- The bytes of a text are all digits, or one of them is the first that is none. -/
theorem digits_or_bad (b : Bytes) : (∀ x ∈ b, IsDigit (Char.ofUInt8 x)) ∨
    ∃ front x rest, b = front ++ x :: rest ∧ (∀ y ∈ front, IsDigit (Char.ofUInt8 y)) ∧
      ¬IsDigit (Char.ofUInt8 x) := by
  cases hbad : b.find? fun x => decide ¬IsDigit (Char.ofUInt8 x) with
  | none =>
    left
    intro x hx
    simpa using List.find?_eq_none.1 hbad x hx
  | some x =>
    obtain ⟨hx, front, rest, hb, hfront⟩ := List.find?_eq_some_iff_append.1 hbad
    exact .inr ⟨front, x, rest, hb, by simpa using hfront, by simpa using hx⟩

end OnionTunnel.Hex
