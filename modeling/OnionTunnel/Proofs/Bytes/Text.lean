import Mathlib.Data.List.Chain
import OnionTunnel.Bytes

/-!
# The bytes of texts

A text is spelled character by character. A character below 128 is one byte, its own number; any
other is a byte from 192 on and then bytes from 128 to 191. So a byte below 128 stands for itself
wherever it occurs in a text, and no byte that goes on a character comes right after it.
-/

namespace OnionTunnel.Bytes

/-- The bytes that spell a row of characters. -/
def ofChars (cs : List Char) : Bytes := cs.flatMap String.utf8EncodeChar

theorem ofChars_cons (c : Char) (cs : List Char) :
    ofChars (c :: cs) = String.utf8EncodeChar c ++ ofChars cs := rfl

theorem ofText_eq (s : String) : ofText s = ofChars s.toList := by
  rw [ofText, String.toUTF8_eq_toByteArray, ← String.utf8Encode_toList, List.utf8Encode,
    List.data_toByteArray]
  rfl

/-- The length of a text in bytes. -/
theorem length_ofText (s : String) : (ofText s).length = s.utf8ByteSize := by
  rw [ofText, String.toUTF8_eq_toByteArray, Array.length_toList, ByteArray.size_data,
    String.size_toByteArray]

/-- Bytes are a text exactly if they spell some characters. -/
theorem isSome_toText?_iff {b : Bytes} : (toText? b).isSome ↔ ∃ cs, b = ofChars cs := by
  have hvalid : (toText? b).isSome ↔ (ByteArray.mk b.toArray).IsValidUTF8 := by
    rw [toText?, String.fromUTF8?]
    split
    · next h => simp [h]
    · next h => simp [h]
  rw [hvalid]
  constructor
  · rintro ⟨cs, hcs⟩
    refine ⟨cs, ?_⟩
    rw [List.utf8Encode] at hcs
    have hdata := congrArg ByteArray.data hcs
    rw [List.data_toByteArray] at hdata
    exact List.toArray_inj hdata
  · rintro ⟨cs, rfl⟩
    refine ⟨cs, ?_⟩
    apply ByteArray.ext
    rw [List.utf8Encode, List.data_toByteArray]
    rfl

/-! ### Characters -/

/-- A byte that goes on a character. -/
def Continues (x : UInt8) : Prop := 128 ≤ x ∧ x < 192

theorem utf8EncodeChar_ascii {c : Char} (h : c.toNat < 128) :
    String.utf8EncodeChar c = [UInt8.ofNat c.toNat] :=
  if_pos (Nat.le_of_lt_succ h)

theorem continues_ofNat (n : Nat) : Continues (UInt8.ofNat (n % 64 + 128)) := by
  have hbyte : (UInt8.ofNat (n % 64 + 128)).toNat = n % 64 + 128 := by
    rw [UInt8.toNat_ofNat']
    omega
  have hhigh : n % 64 + 128 < 192 := by omega
  rw [Continues, UInt8.le_iff_toNat_le, UInt8.lt_iff_toNat_lt, hbyte]
  exact ⟨Nat.le_add_left _ _, hhigh⟩

theorem le_ofNat_of_lead {n : Nat} (hlow : 192 ≤ n) (hhigh : n < 256) : 192 ≤ UInt8.ofNat n := by
  rw [UInt8.le_iff_toNat_le, UInt8.toNat_ofNat', Nat.mod_eq_of_lt hhigh]
  exact hlow

/-- A character from 128 on is a byte that begins one and bytes that go on. -/
theorem utf8EncodeChar_wide {c : Char} (h : 128 ≤ c.toNat) : ∃ lead more,
    String.utf8EncodeChar c = lead :: more ∧ 192 ≤ lead ∧ ∀ x ∈ more, Continues x := by
  have hnot : ¬c.val.toNat ≤ 127 := Nat.not_le.2 h
  rw [String.utf8EncodeChar]
  simp only [if_neg hnot]
  split_ifs
  · refine ⟨_, _, rfl, le_ofNat_of_lead (by omega) (by omega), ?_⟩
    exact List.forall_mem_singleton.2 (continues_ofNat _)
  · refine ⟨_, _, rfl, le_ofNat_of_lead (by omega) (by omega), ?_⟩
    exact List.forall_mem_cons.2 ⟨continues_ofNat _,
      List.forall_mem_singleton.2 (continues_ofNat _)⟩
  · refine ⟨_, _, rfl, le_ofNat_of_lead (by omega) (by omega), ?_⟩
    exact List.forall_mem_cons.2 ⟨continues_ofNat _, List.forall_mem_cons.2 ⟨continues_ofNat _,
      List.forall_mem_singleton.2 (continues_ofNat _)⟩⟩

/-- All bytes of a character from 128 on are from 128 on. -/
theorem le_of_mem_utf8EncodeChar {c : Char} {x : UInt8} (h : 128 ≤ c.toNat)
    (hx : x ∈ String.utf8EncodeChar c) : 128 ≤ x := by
  obtain ⟨lead, more, heq, hlead, hmore⟩ := utf8EncodeChar_wide h
  rw [heq] at hx
  obtain rfl | hx := List.mem_cons.1 hx
  · exact UInt8.le_trans (by decide) hlead
  · exact (hmore x hx).1

/-- Bytes below 128 stand for themselves. -/
theorem ofChars_ascii {cs : List Char} (h : ∀ c ∈ cs, c.toNat < 128) :
    ofChars cs = cs.map fun c => UInt8.ofNat c.toNat := by
  induction cs with
  | nil => rfl
  | cons c cs ih =>
    obtain ⟨hc, hcs⟩ := List.forall_mem_cons.1 h
    rw [ofChars_cons, utf8EncodeChar_ascii hc, ih hcs]
    rfl

/-- Characters whose bytes are all below 128 are below 128. -/
theorem toNat_lt_of_ofChars {cs : List Char} (h : ∀ x ∈ ofChars cs, x < 128) :
    ∀ c ∈ cs, c.toNat < 128 := by
  intro c hc
  by_contra hwide
  obtain ⟨lead, more, heq, hlead, -⟩ := utf8EncodeChar_wide (Nat.not_lt.1 hwide)
  have hmem : lead ∈ ofChars cs := List.mem_flatMap.2 ⟨c, hc, heq ▸ List.mem_cons_self⟩
  exact absurd (h lead hmem) (UInt8.not_lt.2 (UInt8.le_trans (by decide) hlead))

/-- A character below 128 has the number of its byte. -/
theorem ofUInt8_ofNat {c : Char} (h : c.toNat < 128) : Char.ofUInt8 (UInt8.ofNat c.toNat) = c := by
  apply Char.ext
  apply UInt32.toNat_inj.1
  show (UInt8.ofNat c.toNat).toNat = c.toNat
  rw [UInt8.toNat_ofNat']
  exact Nat.mod_eq_of_lt (by omega)

/-- Bytes below 128 are a text. -/
theorem isSome_toText? {b : Bytes} (h : ∀ x ∈ b, x < 128) : (toText? b).isSome := by
  have hascii : ∀ x ∈ b, (Char.ofUInt8 x).toNat < 128 :=
    fun x hx => UInt8.lt_iff_toNat_lt.1 (h x hx)
  refine isSome_toText?_iff.2 ⟨b.map Char.ofUInt8, ?_⟩
  rw [ofChars_ascii (List.forall_mem_map.2 hascii), List.map_map]
  refine (List.map_congr_left ?_).trans (List.map_id b) |>.symm
  intro x _
  exact UInt8.ofNat_toNat

/-! ### Neighbours -/

/-- What may come right after a byte of a text: after one below 128, nothing that goes on a
character. -/
def Follows (x y : UInt8) : Prop := x < 128 → ¬Continues y

theorem not_continues_of_head? {cs : List Char} {y : UInt8} (h : y ∈ (ofChars cs).head?) :
    ¬Continues y := by
  cases cs with
  | nil => cases h
  | cons c cs =>
    by_cases hc : c.toNat < 128
    · rw [ofChars_cons, utf8EncodeChar_ascii hc] at h
      obtain rfl := Option.some.inj h
      intro hy
      have hlow : (UInt8.ofNat c.toNat).toNat = c.toNat := by
        rw [UInt8.toNat_ofNat']
        exact Nat.mod_eq_of_lt (by omega)
      exact absurd (UInt8.le_iff_toNat_le.1 hy.1) (by rw [hlow]; exact Nat.not_le.2 hc)
    · obtain ⟨lead, more, heq, hlead, -⟩ := utf8EncodeChar_wide (Nat.not_lt.1 hc)
      rw [ofChars_cons, heq] at h
      obtain rfl := Option.some.inj h
      exact fun hy => absurd hy.2 (UInt8.not_lt.2 hlead)

/-- In a text no byte that goes on a character comes right after a byte below 128. -/
theorem isChain_ofChars (cs : List Char) : (ofChars cs).IsChain Follows := by
  induction cs with
  | nil => exact List.isChain_nil
  | cons c cs ih =>
    refine List.isChain_append.2 ⟨?_, ih, fun x _ y hy _ => not_continues_of_head? hy⟩
    by_cases hc : c.toNat < 128
    · rw [utf8EncodeChar_ascii hc]
      exact List.isChain_singleton _
    · apply List.Pairwise.isChain
      apply List.pairwise_of_forall_mem_list
      intro x hx y _ hlow
      exact absurd hlow (UInt8.not_lt.2 (le_of_mem_utf8EncodeChar (Nat.not_lt.1 hc) hx))

/-- Bytes in which one that goes on a character comes right after one below 128 are no text. -/
theorem toText?_eq_none {b : Bytes} {x y : UInt8} (h : [x, y] <:+: b) (hx : x < 128)
    (hy : Continues y) : toText? b = none := by
  rw [← Option.not_isSome_iff_eq_none, isSome_toText?_iff]
  rintro ⟨cs, rfl⟩
  have hpair := List.IsChain.infix (isChain_ofChars cs) h
  exact List.isChain_pair.1 hpair hx hy

/-! ### Parts -/

theorem contains_iff {part b : Bytes} : contains part b = true ↔ part <:+: b := by
  induction b with
  | nil => simp [contains]
  | cons x b ih =>
    rw [contains, Bool.or_eq_true, List.isPrefixOf_iff_prefix, ih, List.infix_cons_iff]

end OnionTunnel.Bytes
