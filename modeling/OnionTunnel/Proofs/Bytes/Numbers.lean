import Mathlib.Algebra.Group.Nat.Defs
import OnionTunnel.Bytes

/-!
# Numbers in a fixed width

Writing a number in a fixed width and reading a width as a number are inverse to each other:
`toNat_ofNat` recovers the number up to the width, and `ofNat_toNat` recovers the bytes.
-/

namespace OnionTunnel.Bytes

theorem toNat_foldl (n : Nat) (b : Bytes) :
    b.foldl (fun n x => n * 256 + x.toNat) n = n * 256 ^ b.length + toNat b := by
  induction b generalizing n with
  | nil => simp [toNat]
  | cons x b ih =>
      simp only [List.foldl_cons, List.length_cons, toNat]
      rw [ih, ih (0 * 256 + x.toNat), Nat.pow_succ, Nat.mul_comm (256 ^ b.length), ← Nat.mul_assoc,
        Nat.add_mul (n * 256), Nat.zero_mul, Nat.zero_add, Nat.add_assoc]

@[simp] theorem toNat_nil : toNat [] = 0 := rfl

theorem toNat_cons (x : UInt8) (b : Bytes) :
    toNat (x :: b) = x.toNat * 256 ^ b.length + toNat b := by
  simpa [toNat] using toNat_foldl x.toNat b

theorem toNat_lt (b : Bytes) : toNat b < 256 ^ b.length := by
  induction b with
  | nil => simp
  | cons x b ih =>
      have hx : x.toNat < 256 := x.toNat_lt
      rw [toNat_cons, List.length_cons, Nat.pow_succ]
      have hm : (x.toNat + 1) * 256 ^ b.length ≤ 256 * 256 ^ b.length :=
        Nat.mul_le_mul_right _ hx
      rw [Nat.add_mul] at hm
      omega

@[simp] theorem ofNat_zero_width (n : Nat) : ofNat 0 n = [] := rfl

theorem ofNat_succ (width n : Nat) :
    ofNat (width + 1) n = UInt8.ofNat (n / 256 ^ width) :: ofNat width n := rfl

/-- A number read back from a fixed width is its residue. -/
theorem toNat_ofNat_mod (width n : Nat) : toNat (ofNat width n) = n % 256 ^ width := by
  induction width with
  | zero => simp [Nat.mod_one]
  | succ width ih =>
      have hdigit : (UInt8.ofNat (n / 256 ^ width)).toNat = n / 256 ^ width % 256 :=
        UInt8.toNat_ofNat'
      rw [ofNat_succ, toNat_cons, length_ofNat, ih, hdigit, Nat.pow_succ, Nat.mod_mul,
        Nat.mul_comm (256 ^ width), Nat.add_comm]

/-- A number that fits its width is read back. -/
theorem toNat_ofNat {width n : Nat} (h : n < 256 ^ width) : toNat (ofNat width n) = n := by
  rw [toNat_ofNat_mod, Nat.mod_eq_of_lt h]

/-- Whole multiples of the width's range do not show in the spelling. -/
theorem ofNat_mul_add (width n m : Nat) : ofNat width (m * 256 ^ width + n) = ofNat width n := by
  induction width generalizing n m with
  | zero => rfl
  | succ width ih =>
      have hpos : 0 < 256 ^ width := Nat.pow_pos (by decide)
      have hsplit : m * 256 ^ (width + 1) + n = m * 256 * 256 ^ width + n := by
        rw [Nat.pow_succ, Nat.mul_assoc, Nat.mul_comm 256]
      rw [ofNat_succ, ofNat_succ, hsplit, ih, Nat.mul_comm (m * 256), Nat.mul_add_div hpos]
      congr 1
      apply UInt8.toNat_inj.1
      simp only [UInt8.toNat_ofNat']
      omega

/-- Bytes are the spelling of the number they spell. -/
theorem ofNat_toNat (b : Bytes) : ofNat b.length (toNat b) = b := by
  induction b with
  | nil => rfl
  | cons x b ih =>
      have hpos : 0 < 256 ^ b.length := Nat.pow_pos (by decide)
      have hhead : (x.toNat * 256 ^ b.length + toNat b) / 256 ^ b.length = x.toNat := by
        rw [Nat.mul_comm, Nat.mul_add_div hpos, Nat.div_eq_of_lt (toNat_lt b), Nat.add_zero]
      rw [toNat_cons, List.length_cons, ofNat_succ, hhead, ofNat_mul_add, ih, UInt8.ofNat_toNat]

/-- Bytes of a known length are the spelling of their number in that width. -/
theorem ofNat_toNat_of_length {b : Bytes} {width : Nat} (h : b.length = width) :
    ofNat width (toNat b) = b := by
  subst h
  exact ofNat_toNat b

/-! ### The bits and bytes a number needs -/

theorem lt_two_pow_bitLength (n : Nat) : n < 2 ^ bitLength n := by
  unfold bitLength
  split
  · next hzero => simp [hzero]
  · exact Nat.lt_log2_self

theorem bitLength_le {n k : Nat} (h : n < 2 ^ k) : bitLength n ≤ k := by
  unfold bitLength
  split
  · exact Nat.zero_le k
  · next hne =>
    exact (Nat.pow_lt_pow_iff_right (by decide)).1
      (Nat.lt_of_le_of_lt (Nat.log2_self_le hne) h)

theorem bitLength_le_iff {n k : Nat} : bitLength n ≤ k ↔ n < 2 ^ k := by
  refine ⟨fun h => ?_, bitLength_le⟩
  exact Nat.lt_of_lt_of_le (lt_two_pow_bitLength n) (Nat.pow_le_pow_right (by decide) h)

/-- A number fits the bytes that hold its bits. -/
theorem lt_pow_of_bitLength_le {n width : Nat} (h : bitLength n ≤ 8 * width) :
    n < 256 ^ width := by
  have hpow : 256 ^ width = 2 ^ (8 * width) := by rw [Nat.pow_mul]
  rw [hpow]
  exact Nat.lt_of_lt_of_le (lt_two_pow_bitLength n) (Nat.pow_le_pow_right (by decide) h)

/-- A number fits the bytes that it needs. -/
theorem lt_pow_byteLength (n : Nat) : n < 256 ^ byteLength n := by
  apply lt_pow_of_bitLength_le
  unfold byteLength
  omega

/-- A number that fits a width needs no more bytes. -/
theorem byteLength_le {n width : Nat} (h : n < 256 ^ width) : byteLength n ≤ width := by
  have hpow : 256 ^ width = 2 ^ (8 * width) := by rw [Nat.pow_mul]
  have hbits := bitLength_le (hpow ▸ h)
  unfold byteLength
  omega

end OnionTunnel.Bytes
