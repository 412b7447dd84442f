import OnionTunnel.Der
import OnionTunnel.Proofs.Bytes.Numbers

/-!
# Elements have one spelling

What reading takes off the front of a byte string is exactly what writing puts there, whatever
follows. Each `read…_iff` says so of a length, an element with a tag, a whole number or a string of
bits: what is written is read back, and nothing else is read as the same.
-/

namespace OnionTunnel.Der

/-! ### Counts -/

/-- The byte that spells a small count. -/
theorem toNat_countByte {width : Nat} (h : width < 127) :
    (UInt8.ofNat (128 + width)).toNat = 128 + width := by
  rw [UInt8.toNat_ofNat']
  exact Nat.mod_eq_of_lt (by omega)

theorem encodeCount_of_lt {width : Nat} (h : width < 127) :
    encodeCount width = [UInt8.ofNat (128 + width)] := by
  rw [encodeCount, Nat.div_eq_of_lt h, Nat.mod_eq_of_lt h]
  rfl

theorem encodeCount_add (width : Nat) : encodeCount (width + 127) = 0xff :: encodeCount width := by
  have hdiv : (width + 127) / 127 = width / 127 + 1 := Nat.add_div_right width (by decide)
  rw [encodeCount, hdiv, Nat.add_mod_right, List.replicate_succ]
  rfl

/-- The byte of a small count is neither a length nor the start of a higher count. -/
theorem countByte_ne {width : Nat} (h : width < 127) :
    UInt8.ofNat (128 + width) ≠ 0xff ∧ ¬UInt8.ofNat (128 + width) < 128 := by
  constructor
  · intro heq
    have hbyte := congrArg UInt8.toNat heq
    rw [toNat_countByte h] at hbyte
    have hff : (0xff : UInt8).toNat = 255 := rfl
    omega
  · rw [UInt8.lt_iff_toNat_lt, toNat_countByte h]
    exact Nat.not_lt.2 (Nat.le_add_right 128 width)

/-- A count is read back. -/
theorem readCount_encodeCount (width : Nat) (rest : Bytes) :
    readCount (encodeCount width ++ rest) = some (width, rest) := by
  induction width using Nat.strongRecOn with
  | ind width ih =>
    by_cases hsmall : width < 127
    · obtain ⟨hff, hlow⟩ := countByte_ne hsmall
      rw [encodeCount_of_lt hsmall, List.singleton_append, readCount, if_neg hff, if_neg hlow,
        toNat_countByte hsmall, Nat.add_sub_cancel_left]
    · obtain ⟨w, rfl⟩ := Nat.exists_eq_add_of_le' (Nat.not_lt.1 hsmall)
      rw [encodeCount_add, List.cons_append, readCount, if_pos rfl,
        ih w (Nat.lt_add_of_pos_right (by decide))]
      rfl

/-- What is read as a count is its spelling. -/
theorem eq_of_readCount {b rest : Bytes} {width : Nat} (h : readCount b = some (width, rest)) :
    b = encodeCount width ++ rest := by
  induction b generalizing width with
  | nil => cases h
  | cons c b ih =>
    unfold readCount at h
    split at h
    · next hff =>
      obtain ⟨⟨w, more⟩, hmore, heq⟩ := Option.map_eq_some_iff.1 h
      obtain ⟨rfl, rfl⟩ := Prod.mk.inj heq
      rw [encodeCount_add, List.cons_append, ← ih hmore, hff]
    · next hff =>
      split at h
      · cases h
      · next hlow =>
        obtain ⟨rfl, rfl⟩ := Prod.mk.inj (Option.some.inj h)
        rw [UInt8.lt_iff_toNat_lt] at hlow
        have hlow' : 128 ≤ c.toNat := Nat.not_lt.1 hlow
        have hlt : c.toNat < 255 := by
          have hmax := c.toNat_lt
          have hne : c.toNat ≠ 255 := fun heq => hff (UInt8.toNat_inj.1 heq)
          omega
        rw [encodeCount_of_lt (by omega), Nat.add_sub_cancel' hlow', UInt8.ofNat_toNat]
        rfl

/-- The spelling of a count begins with a byte that is no length. -/
theorem encodeCount_eq_cons (width : Nat) :
    ∃ c more, encodeCount width = c :: more ∧ ¬c < 128 := by
  by_cases hsmall : width < 127
  · exact ⟨_, _, encodeCount_of_lt hsmall, (countByte_ne hsmall).2⟩
  · obtain ⟨w, rfl⟩ := Nat.exists_eq_add_of_le' (Nat.not_lt.1 hsmall)
    exact ⟨_, _, encodeCount_add w, by decide⟩

/-! ### Lengths -/

theorem encodeLength_of_lt {n : Nat} (h : n < 128) : encodeLength n = [UInt8.ofNat n] :=
  if_pos h

theorem encodeLength_of_le {n : Nat} (h : 128 ≤ n) : encodeLength n =
    encodeCount (Bytes.byteLength n) ++ Bytes.ofNat (Bytes.byteLength n) n :=
  if_neg (Nat.not_lt.2 h)

theorem length_encodeLength {n : Nat} (h : n < 256 ^ 4) : (encodeLength n).length ≤ 5 := by
  have hle := Bytes.byteLength_le h
  unfold encodeLength
  split
  · exact Nat.le_add_left 1 4
  · rw [encodeCount_of_lt (by omega), List.length_append, Bytes.length_ofNat]
    exact Nat.add_comm _ 1 ▸ Nat.succ_le_succ hle

/-- A length is read back. -/
theorem readLength_encodeLength (n : Nat) (rest : Bytes) :
    readLength (encodeLength n ++ rest) = some (n, rest) := by
  by_cases hshort : n < 128
  · have hbyte : (UInt8.ofNat n).toNat = n := by
      rw [UInt8.toNat_ofNat']
      exact Nat.mod_eq_of_lt (by omega)
    have hlt : UInt8.ofNat n < 128 := by
      rw [UInt8.lt_iff_toNat_lt, hbyte]
      exact hshort
    rw [encodeLength_of_lt hshort, List.singleton_append, readLength, if_pos hlt, hbyte]
  · have hlong := encodeLength_of_le (Nat.not_lt.1 hshort)
    have hcount := readCount_encodeCount (Bytes.byteLength n)
      (Bytes.ofNat (Bytes.byteLength n) n ++ rest)
    obtain ⟨c, more, hcons, hlow⟩ := encodeCount_eq_cons (Bytes.byteLength n)
    have htake : (Bytes.ofNat (Bytes.byteLength n) n ++ rest).take (Bytes.byteLength n) =
        Bytes.ofNat (Bytes.byteLength n) n :=
      List.take_left' (Bytes.length_ofNat _ n)
    have hdrop : (Bytes.ofNat (Bytes.byteLength n) n ++ rest).drop (Bytes.byteLength n) = rest :=
      List.drop_left' (Bytes.length_ofNat _ n)
    rw [hcons, List.cons_append] at hcount
    rw [hlong, List.append_assoc, hcons, List.cons_append, readLength, if_neg hlow, hcount]
    simp only [Option.bind_eq_bind, Option.bind_some, htake, hdrop,
      Bytes.toNat_ofNat (Bytes.lt_pow_byteLength n), hlong, if_true]

/-- What is read as a length is its spelling. -/
theorem eq_of_readLength {b rest : Bytes} {n : Nat} (h : readLength b = some (n, rest)) :
    b = encodeLength n ++ rest := by
  unfold readLength at h
  split at h
  · cases h
  · next c more =>
    split at h
    · next hlow =>
      obtain ⟨rfl, rfl⟩ := Prod.mk.inj (Option.some.inj h)
      rw [UInt8.lt_iff_toNat_lt] at hlow
      rw [encodeLength_of_lt hlow, UInt8.ofNat_toNat]
      rfl
    · obtain ⟨⟨width, digits⟩, hcount, h⟩ := Option.bind_eq_some_iff.1 h
      simp only at h
      split at h
      · next hspelled =>
        obtain ⟨rfl, rfl⟩ := Prod.mk.inj (Option.some.inj h)
        rw [hspelled, List.append_assoc, List.take_append_drop]
        exact eq_of_readCount hcount
      · cases h

theorem readLength_iff {b rest : Bytes} {n : Nat} :
    readLength b = some (n, rest) ↔ b = encodeLength n ++ rest :=
  ⟨eq_of_readLength, fun h => h ▸ readLength_encodeLength n rest⟩

/-! ### Lengths within the usual bound -/

/-- Up to the usual bound, a length of more than one byte is spelled in at most four, behind 128 and
their number. -/
theorem encodeLength_of_short {n : Nat} (hlong : 128 ≤ n) (hshort : n ≤ maxLength) :
    Bytes.byteLength n ≤ 4 ∧ encodeLength n =
      UInt8.ofNat (128 + Bytes.byteLength n) :: Bytes.ofNat (Bytes.byteLength n) n := by
  have hwidth : Bytes.byteLength n ≤ 4 :=
    Bytes.byteLength_le (Nat.lt_of_le_of_lt hshort (by decide))
  refine ⟨hwidth, ?_⟩
  rw [encodeLength_of_le hlong, encodeCount_of_lt (by omega), List.singleton_append]

/-- A length within the usual bound and the bytes after it: one byte, or at most four of which none
could be spared, behind 128 and their number. -/
def readBoundedLength : Bytes → Option (Nat × Bytes)
  | [] => none
  | b :: rest =>
    if b < 128 then some (b.toNat, rest)
    else
      let width := b.toNat - 128
      let n := Bytes.toNat (rest.take width)
      if width ≤ rest.length ∧ width = Bytes.byteLength n ∧ 128 ≤ n ∧ n ≤ maxLength then
        some (n, rest.drop width)
      else none

/-- With the bound the same lengths are read as without it, up to the bound. -/
theorem readBoundedLength_iff {b rest : Bytes} {n : Nat} :
    readBoundedLength b = some (n, rest) ↔ n ≤ maxLength ∧ readLength b = some (n, rest) := by
  rw [readLength_iff]
  constructor
  · intro h
    unfold readBoundedLength at h
    split at h
    · cases h
    · next c more =>
      split at h
      · next hlow =>
        obtain ⟨rfl, rfl⟩ := Prod.mk.inj (Option.some.inj h)
        rw [UInt8.lt_iff_toNat_lt] at hlow
        have hbyte : c.toNat < 128 := hlow
        refine ⟨Nat.le_trans (Nat.le_of_lt hbyte) (by decide), ?_⟩
        rw [encodeLength_of_lt hlow, UInt8.ofNat_toNat]
        rfl
      · next hhigh =>
        simp only at h
        split at h
        · next hspelled =>
          obtain ⟨hfit, hwidth, hlong, hshort⟩ := hspelled
          obtain ⟨rfl, rfl⟩ := Prod.mk.inj (Option.some.inj h)
          rw [UInt8.lt_iff_toNat_lt] at hhigh
          have hcount : 128 + (c.toNat - 128) = c.toNat := Nat.add_sub_cancel' (Nat.not_lt.1 hhigh)
          refine ⟨hshort, ?_⟩
          rw [(encodeLength_of_short hlong hshort).2, ← hwidth, hcount, UInt8.ofNat_toNat,
            Bytes.ofNat_toNat_of_length (List.length_take_of_le hfit), List.cons_append,
            List.take_append_drop]
        · cases h
  · rintro ⟨hshort, rfl⟩
    by_cases hlow : n < 128
    · have hread := readLength_encodeLength n rest
      have hbyte : UInt8.ofNat n < 128 := by
        rw [UInt8.lt_iff_toNat_lt, UInt8.toNat_ofNat', Nat.mod_eq_of_lt (by omega)]
        exact hlow
      rw [encodeLength_of_lt hlow, List.singleton_append] at hread ⊢
      rw [readLength, if_pos hbyte] at hread
      rw [readBoundedLength, if_pos hbyte, hread]
    · have hlong := Nat.not_lt.1 hlow
      obtain ⟨hwidth, hspelling⟩ := encodeLength_of_short hlong hshort
      have hcount : (UInt8.ofNat (128 + Bytes.byteLength n)).toNat = 128 + Bytes.byteLength n :=
        toNat_countByte (by omega)
      have hsize := Bytes.length_ofNat (Bytes.byteLength n) n
      rw [hspelling, List.cons_append, readBoundedLength,
        if_neg (countByte_ne (by omega)).2, hcount, Nat.add_sub_cancel_left]
      simp only [List.take_left' hsize, List.drop_left' hsize,
        Bytes.toNat_ofNat (Bytes.lt_pow_byteLength n), List.length_append, hsize]
      rw [if_pos ⟨Nat.le_add_right _ _, trivial, hlong, hshort⟩]

/-! ### Elements -/

theorem length_element (tag : UInt8) {content : Bytes} (h : content.length < 256 ^ 4) :
    (element tag content).length ≤ content.length + 6 := by
  have hlength := length_encodeLength h
  rw [element, List.length_cons, List.length_append]
  omega

theorem readAfterTag_iff {b content rest : Bytes} : readAfterTag b = some (content, rest) ↔
    b = encodeLength content.length ++ (content ++ rest) := by
  constructor
  · intro h
    obtain ⟨⟨n, more⟩, hlength, h⟩ := Option.bind_eq_some_iff.1 h
    simp only at h
    split at h
    · next hle =>
      obtain ⟨rfl, rfl⟩ := Prod.mk.inj (Option.some.inj h)
      rw [List.length_take_of_le hle, List.take_append_drop]
      exact readLength_iff.1 hlength
    · cases h
  · rintro rfl
    rw [readAfterTag, readLength_iff.2 rfl]
    show (if content.length ≤ (content ++ rest).length then
      some ((content ++ rest).take content.length, (content ++ rest).drop content.length)
      else none) = _
    rw [if_pos (by simp), List.take_left, List.drop_left]

/-- The content of the next element and the bytes after it, with a length within the usual bound. -/
def readBoundedAfterTag (b : Bytes) : Option (Bytes × Bytes) := do
  let (n, rest) ← readBoundedLength b
  if n ≤ rest.length then some (rest.take n, rest.drop n) else none

/-- Off no more bytes than the usual bound, the same is read with it as without it. -/
theorem readAfterTag_eq_bounded {b : Bytes} (h : b.length ≤ maxLength) :
    readAfterTag b = readBoundedAfterTag b := by
  cases hlength : readLength b with
  | none =>
    have hbounded : readBoundedLength b = none := by
      refine Option.eq_none_iff_forall_ne_some.2 fun found hfound => ?_
      cases hlength.symm.trans (readBoundedLength_iff.1 hfound).2
    rw [readAfterTag, readBoundedAfterTag, hlength, hbounded]
  | some found =>
    obtain ⟨n, rest⟩ := found
    by_cases hshort : n ≤ maxLength
    · rw [readAfterTag, readBoundedAfterTag, hlength, readBoundedLength_iff.2 ⟨hshort, hlength⟩]
    · have hbounded : readBoundedLength b = none := by
        refine Option.eq_none_iff_forall_ne_some.2 fun found hfound => ?_
        obtain ⟨hle, hread⟩ := readBoundedLength_iff.1 hfound
        obtain rfl : n = found.1 := congrArg Prod.fst (Option.some.inj (hlength.symm.trans hread))
        exact hshort hle
      -- The element would be longer than the bytes that it is read off.
      have hlt := length_lt_of_readLength hlength
      rw [readAfterTag, readBoundedAfterTag, hlength, hbounded]
      exact if_neg (by omega)

/-- An element that is read is the one that was written, and what follows it is left. -/
theorem read_iff {tag : UInt8} {b content rest : Bytes} :
    read tag b = some (content, rest) ↔ b = element tag content ++ rest := by
  cases b with
  | nil => simp [read, element]
  | cons t b =>
    rw [read, element, List.cons_append, List.append_assoc, List.cons.injEq, ← readAfterTag_iff]
    split
    · next htag => simp [htag]
    · next htag => simp [htag]

theorem readOnly_iff {tag : UInt8} {b content : Bytes} :
    readOnly tag b = some content ↔ b = element tag content := by
  have hread := @read_iff tag b content []
  rw [List.append_nil] at hread
  rw [← hread, readOnly]
  cases hb : read tag b with
  | none => simp
  | some found =>
    obtain ⟨content', rest⟩ := found
    cases rest with
    | nil => simp
    | cons x rest => simp

/-- A string of bits that is read is the one that was written. -/
theorem readBitString_iff {b content rest : Bytes} :
    readBitString b = some (content, rest) ↔ b = bitString content ++ rest := by
  rw [bitString, ← read_iff, readBitString]
  cases hb : read bitStringTag b with
  | none => simp
  | some found =>
    obtain ⟨content', rest'⟩ := found
    cases content' with
    | nil => simp
    | cons x more =>
      by_cases hx : x = 0
      · subst hx
        simp
      · simp [hx]

/-! ### Whole numbers -/

theorem length_unsigned (n : Nat) : (unsigned n).length = Bytes.bitLength n / 8 + 1 :=
  Bytes.length_ofNat _ n

/-- The bytes of a whole number spell it, and no others do. -/
theorem readUnsigned_iff {content : Bytes} {n : Nat} :
    readUnsigned content = some n ↔ content = unsigned n := by
  simp only [readUnsigned]
  constructor
  · intro h
    split at h
    · next hspelled =>
      obtain rfl := Option.some.inj h
      exact hspelled.symm
    · cases h
  · rintro rfl
    have hfit : n < 256 ^ (Bytes.bitLength n / 8 + 1) :=
      Bytes.lt_pow_of_bitLength_le (by omega)
    have hback : Bytes.toNat (unsigned n) = n := Bytes.toNat_ofNat hfit
    rw [hback, if_pos rfl]

theorem length_integer {n : Nat} (h : Bytes.bitLength n < 2 ^ 32) :
    (integer n).length ≤ Bytes.bitLength n / 8 + 7 := by
  have hlength := length_unsigned n
  have hshort : (unsigned n).length < 256 ^ 4 := by omega
  have helement := length_element integerTag hshort
  rw [integer]
  omega

/-- A whole number that is read is the one that was written. -/
theorem readInteger_iff {b rest : Bytes} {n : Nat} :
    readInteger b = some (n, rest) ↔ b = integer n ++ rest := by
  rw [integer, ← read_iff, readInteger]
  cases hb : read integerTag b with
  | none => simp
  | some found =>
    obtain ⟨content, rest'⟩ := found
    simp only [Option.pure_def, Option.bind_eq_bind, Option.bind_some, Option.bind_eq_some_iff,
      readUnsigned_iff, Option.some.injEq, Prod.mk.injEq]
    constructor
    · rintro ⟨m, hm, rfl, hrest⟩
      exact ⟨hm, hrest⟩
    · rintro ⟨hn, hrest⟩
      exact ⟨n, hn, rfl, hrest⟩

end OnionTunnel.Der
