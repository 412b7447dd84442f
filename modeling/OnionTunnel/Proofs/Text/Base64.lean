import OnionTunnel.Proofs.Bytes.Numbers
import OnionTunnel.Text.Base64

/-!
# Letters that are written are read

Each group of four letters spells the three bytes that it was written for, and a last group with
padding the one or two bytes. All letters are visible characters.
-/

namespace OnionTunnel.Base64

/-- A byte between the plus sign and the last small letter, as all letters and the padding are. -/
def Visible (c : UInt8) : Prop := 43 ≤ c ∧ c ≤ 122

/-! ### Groups -/

theorem value?_letter : ∀ n < 64, value? (letter n) = some n := by
  decide

theorem letter_visible : ∀ n < 64, 43 ≤ letter n ∧ letter n ≤ 122 := by
  decide

theorem letter_ne_padding : ∀ n < 64, letter n ≠ padding := by
  decide

/-- Three bytes spell a number of twenty-four bits. -/
theorem toNat_three_lt (a b c : UInt8) : Bytes.toNat [a, b, c] < 256 ^ 3 :=
  Bytes.toNat_lt [a, b, c]

/-- The letters of a group are read as the three bytes. -/
theorem ungroup_group (a b c : UInt8) :
    ungroup (letter (Bytes.toNat [a, b, c] / 262144))
      (letter (Bytes.toNat [a, b, c] / 4096 % 64)) (letter (Bytes.toNat [a, b, c] / 64 % 64))
      (letter (Bytes.toNat [a, b, c] % 64)) = some [a, b, c] := by
  have hbytes : Bytes.ofNat 3 (Bytes.toNat [a, b, c]) = [a, b, c] :=
    Bytes.ofNat_toNat_of_length rfl
  have hlt := toNat_three_lt a b c
  generalize Bytes.toNat [a, b, c] = n at hbytes hlt
  have hfirst : n / 262144 < 64 := by omega
  have hdigits : ((n / 262144 * 64 + n / 4096 % 64) * 64 + n / 64 % 64) * 64 + n % 64 = n := by
    omega
  have hdigit : ∀ m, m % 64 < 64 := fun m => Nat.mod_lt m (by decide)
  simp only [ungroup, value?_letter _ hfirst, value?_letter _ (hdigit _), Option.bind_eq_bind,
    Option.bind_some, hdigits, Option.pure_def, hbytes]

theorem visible_of_mem_group {a b c x : UInt8} (h : x ∈ group a b c) : Visible x := by
  have hlt := toNat_three_lt a b c
  have hdigit : ∀ m, m % 64 < 64 := fun m => Nat.mod_lt m (by decide)
  simp only [group, List.mem_cons, List.not_mem_nil, or_false] at h
  obtain rfl | rfl | rfl | rfl := h
  · exact letter_visible _ (by omega)
  · exact letter_visible _ (hdigit _)
  · exact letter_visible _ (hdigit _)
  · exact letter_visible _ (hdigit _)

/-! ### Last groups -/

/-- A last group of three bytes is read back. -/
theorem decode?_encode_three (a b c : UInt8) : decode? (encode [a, b, c]) = some [a, b, c] := by
  have hpadding := letter_ne_padding (Bytes.toNat [a, b, c] % 64) (Nat.mod_lt _ (by decide))
  have hgroup := ungroup_group a b c
  simp only [encode, group, List.append_nil, decode?, lastGroup, hpadding, ne_eq,
    not_false_eq_true, if_true, hgroup, Option.bind_eq_bind, Option.bind_some]

/-- A last group of two bytes is read back: the letter that the padding stands for is the first. -/
theorem decode?_encode_two (a b : UInt8) : decode? (encode [a, b]) = some [a, b] := by
  have hpadding := letter_ne_padding (Bytes.toNat [a, b, 0] / 64 % 64) (Nat.mod_lt _ (by decide))
  have hlast : letter (Bytes.toNat [a, b, 0] % 64) = 65 := by
    have hzero : Bytes.toNat [a, b, 0] % 64 = 0 := by
      simp only [Bytes.toNat, List.foldl_cons, List.foldl_nil, UInt8.toNat_zero]
      omega
    rw [hzero]
    rfl
  have hgroup := ungroup_group a b 0
  rw [hlast] at hgroup
  simp only [encode, group, List.take_succ_cons, List.take_zero, List.cons_append, List.nil_append,
    decode?, lastGroup, hpadding, ne_eq, not_true_eq_false, if_false, not_false_eq_true, if_true,
    hgroup, Option.map_some, Option.bind_eq_bind, Option.bind_some]

/-- A last group of one byte is read back: the letters that the padding stands for are the first. -/
theorem decode?_encode_one (a : UInt8) : decode? (encode [a]) = some [a] := by
  have hzeros : Bytes.toNat [a, 0, 0] / 64 % 64 = 0 ∧ Bytes.toNat [a, 0, 0] % 64 = 0 := by
    simp only [Bytes.toNat, List.foldl_cons, List.foldl_nil, UInt8.toNat_zero]
    omega
  have hgroup := ungroup_group a 0 0
  rw [hzeros.1, hzeros.2] at hgroup
  have hfirst : letter 0 = 65 := rfl
  rw [hfirst] at hgroup
  simp only [encode, group, List.take_succ_cons, List.take_zero, List.cons_append, List.nil_append,
    decode?, lastGroup, ne_eq, not_true_eq_false, if_false, hgroup, Option.map_some,
    Option.bind_eq_bind, Option.bind_some, if_true]

/-! ### Texts -/

/-- All that is written is visible. -/
theorem visible_of_mem_encode {b : Bytes} {x : UInt8} (h : x ∈ encode b) : Visible x := by
  have hpadding : Visible padding := ⟨by decide, by decide⟩
  fun_induction encode b with
  | case1 a b c rest ih =>
    obtain h | h := List.mem_append.1 h
    · exact visible_of_mem_group h
    · exact ih h
  | case2 a b =>
    obtain h | h := List.mem_append.1 h
    · exact visible_of_mem_group (List.mem_of_mem_take h)
    · exact List.mem_singleton.1 h ▸ hpadding
  | case3 a =>
    obtain h | h := List.mem_append.1 h
    · exact visible_of_mem_group (List.mem_of_mem_take h)
    · simp only [List.mem_cons, List.not_mem_nil, or_false, or_self] at h
      exact h ▸ hpadding
  | case4 => cases h

/-- Bytes that are written in letters are read back. -/
theorem decode?_encode (b : Bytes) : decode? (encode b) = some b := by
  fun_induction encode b with
  | case1 a b c rest ih =>
    cases hrest : encode rest with
    | nil =>
      rw [hrest] at ih
      obtain rfl : [] = rest := Option.some.inj ih
      exact decode?_encode_three a b c
    | cons x more =>
      rw [hrest] at ih
      have hgroup := ungroup_group a b c
      simp only [group, List.cons_append, List.nil_append, decode?, hgroup, ih,
        Option.bind_eq_bind, Option.bind_some, Option.pure_def]
  | case2 a b => exact decode?_encode_two a b
  | case3 a => exact decode?_encode_one a
  | case4 => rfl

theorem encode_ne_nil {b : Bytes} (h : b ≠ []) : encode b ≠ [] := by
  intro hnil
  have hback := decode?_encode b
  rw [hnil] at hback
  exact h (Option.some.inj hback).symm

end OnionTunnel.Base64
