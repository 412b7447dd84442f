import OnionTunnel.Proofs.Bytes.Reading
import OnionTunnel.Proofs.Bytes.Text
import OnionTunnel.Proofs.Text.Base64
import OnionTunnel.Text.Pem

/-!
# Labelled texts that are written are read

A block that holds something is read back from its text, whatever the number of its lines and the
length of the last one. The text is made of ASCII characters, so it is read as a text, too.
-/

namespace OnionTunnel

namespace Bytes

theorem beforeSuffix?_append (b stop : Bytes) : beforeSuffix? stop (b ++ stop) = some b := by
  rw [beforeSuffix?, if_pos (by simp), List.length_append, Nat.add_sub_cancel, List.take_left]

end Bytes

namespace Pem

/-! ### Line ends -/

/-- A byte that does not end a line. -/
def Plain (x : UInt8) : Prop := x ≠ 10 ∧ x ≠ 13

theorem plain_of_visible {x : UInt8} (h : Base64.Visible x) : Plain x := by
  constructor
  · rintro rfl
    exact absurd h.1 (by decide)
  · rintro rfl
    exact absurd h.1 (by decide)

theorem afterLineEnd?_of_plain {x : UInt8} (h : Plain x) (b : Bytes) :
    afterLineEnd? (x :: b) = none := by
  unfold afterLineEnd?
  split
  · next heq => exact absurd (List.cons.inj heq).1 h.1
  · next heq => exact absurd (List.cons.inj heq).1 h.2
  · next heq => exact absurd (List.cons.inj heq).1 h.2
  · rfl

/-- A line feed after a byte that ends no line is a line end of its own. -/
theorem beforeLineEnd?_of_feed {x : UInt8} (h : Plain x) (b : Bytes) :
    beforeLineEnd? (b ++ [x] ++ [10]) = some (b ++ [x]) := by
  have hfeed := Bytes.beforeSuffix?_append (b ++ [x]) [10]
  have hboth : Bytes.beforeSuffix? [13, 10] (b ++ [x] ++ [10]) = none := by
    rw [Bytes.beforeSuffix?, if_neg]
    simp [List.isSuffixOf, h.2.symm]
  rw [beforeLineEnd?, hboth, hfeed]
  rfl

theorem beforeLineEnd?_of_plain {x : UInt8} (h : Plain x) (b : Bytes) :
    beforeLineEnd? (b ++ [x]) = none := by
  have hboth : Bytes.beforeSuffix? [13, 10] (b ++ [x]) = none := by
    rw [Bytes.beforeSuffix?, if_neg]
    simp [List.isSuffixOf, h.1.symm]
  have hfeed : Bytes.beforeSuffix? [10] (b ++ [x]) = none := by
    rw [Bytes.beforeSuffix?, if_neg]
    simp [List.isSuffixOf, h.1.symm]
  have hreturn : Bytes.beforeSuffix? [13] (b ++ [x]) = none := by
    rw [Bytes.beforeSuffix?, if_neg]
    simp [List.isSuffixOf, h.2.symm]
  rw [beforeLineEnd?, hboth, hfeed, hreturn]
  rfl

/-! ### Lines -/

/-- Bytes that begin with no line end, and end with none. -/
structure Bounded (b : Bytes) : Prop where
  first : ∃ x more, b = x :: more ∧ Plain x
  last : ∃ front x, b = front ++ [x] ∧ Plain x

theorem bounded_of_plain {b : Bytes} (hne : b ≠ []) (h : ∀ x ∈ b, Plain x) : Bounded b := by
  constructor
  · obtain ⟨x, more, rfl⟩ := List.exists_cons_of_ne_nil hne
    exact ⟨x, more, rfl, h x List.mem_cons_self⟩
  · exact ⟨_, _, (List.dropLast_concat_getLast hne).symm, h _ (List.getLast_mem hne)⟩

theorem Bounded.afterLineEnd?_eq_none {b : Bytes} (h : Bounded b) : afterLineEnd? b = none := by
  obtain ⟨x, more, rfl, hx⟩ := h.first
  exact afterLineEnd?_of_plain hx more

theorem Bounded.beforeLineEnd?_eq_none {b : Bytes} (h : Bounded b) : beforeLineEnd? b = none := by
  obtain ⟨front, x, rfl, hx⟩ := h.last
  exact beforeLineEnd?_of_plain hx front

theorem Bounded.beforeLineEnd?_append {b : Bytes} (h : Bounded b) :
    beforeLineEnd? (b ++ [10]) = some b := by
  obtain ⟨front, x, rfl, hx⟩ := h.last
  exact beforeLineEnd?_of_feed hx front

/-- A last line holds its letters. -/
theorem unwrap?_last {line : Bytes} (hlength : line.length ≤ lineWidth) (h : Bounded line) :
    unwrap? line = some line := by
  rw [unwrap?, if_pos (by simpa using hlength), h.beforeLineEnd?_eq_none]
  rfl

/-- A full line is put in front of the letters of the lines after it. -/
theorem unwrap?_full {line rest : Bytes} (hlength : line.length = lineWidth) (h : Bounded rest) :
    unwrap? (line ++ 10 :: rest) = (unwrap? rest).map (line ++ ·) := by
  have hend : afterLineEnd? (10 :: rest) = some rest := rfl
  rw [unwrap?, List.drop_left' hlength, List.take_left' hlength, if_neg (by simp)]
  split
  · next hnone => cases hend.symm.trans hnone
  · next rest' hsome =>
    obtain rfl := Option.some.inj (hend.symm.trans hsome)
    rw [h.afterLineEnd?_eq_none, if_neg (by simp)]

/-- Plain letters are cut into lines, and the lines are joined to the letters again. -/
theorem exists_lines {letters : Bytes} (hne : letters ≠ []) (hplain : ∀ x ∈ letters, Plain x) :
    ∃ lines, wrap letters = lines ++ [10] ∧ Bounded lines ∧ unwrap? lines = some letters := by
  fun_induction wrap letters with
  | case1 => exact absurd rfl hne
  | case2 letters _ ih =>
    by_cases hlast : letters.length ≤ lineWidth
    · have hbounded := bounded_of_plain hne hplain
      refine ⟨letters, ?_, hbounded, unwrap?_last hlast hbounded⟩
      rw [List.take_of_length_le hlast, List.drop_of_length_le hlast, wrap, dif_pos rfl]
    · have hfull : (letters.take lineWidth).length = lineWidth :=
        List.length_take_of_le (Nat.le_of_not_le hlast)
      have hmore : letters.drop lineWidth ≠ [] := by simpa using hlast
      obtain ⟨lines, hwrap, hbounded, hjoined⟩ :=
        ih hmore fun x hx => hplain x (List.mem_of_mem_drop hx)
      refine ⟨letters.take lineWidth ++ 10 :: lines, ?_, ⟨?_, ?_⟩, ?_⟩
      · rw [hwrap, List.append_assoc, List.cons_append]
      · obtain ⟨x, more, rfl⟩ := List.exists_cons_of_ne_nil hne
        exact ⟨x, _, rfl, hplain x List.mem_cons_self⟩
      · obtain ⟨front, x, rfl, hx⟩ := hbounded.last
        exact ⟨letters.take lineWidth ++ 10 :: front, x, by simp, hx⟩
      · rw [unwrap?_full hfull hbounded, hjoined, Option.map_some, List.take_append_drop]

/-! ### Blocks -/

/-- The text of a block from behind the opening words on. -/
def tail (p : Pem) : Bytes :=
  p.label ++
    (dashes ++ 10 :: (wrap (Base64.encode p.content) ++ closing ++ p.label ++ dashes ++ [10]))

theorem encode_eq (p : Pem) : encode p = opening ++ tail p := by
  simp only [encode, tail, List.append_assoc, List.cons_append]

/-- The label in front of the dashes is found. -/
theorem takeWhile_tail {p : Pem} (h : 45 ∉ p.label) : (tail p).takeWhile (· ≠ 45) = p.label := by
  have hall : ∀ x ∈ p.label, decide (x ≠ 45) = true := by
    intro x hx
    exact decide_eq_true fun heq => h (heq ▸ hx)
  have hdashes : (dashes ++ 10 :: (wrap (Base64.encode p.content) ++ closing ++ p.label ++ dashes ++
      [10])).takeWhile (· ≠ 45) = [] := rfl
  rw [tail, List.takeWhile_append_of_pos hall, hdashes, List.append_nil]

theorem beforeLineEnd?_dashes (b : Bytes) :
    beforeLineEnd? (b ++ dashes ++ [10]) = some (b ++ dashes) := by
  have hsplit : b ++ dashes = b ++ [45, 45, 45, 45] ++ [45] := by
    rw [List.append_assoc]
    rfl
  rw [hsplit]
  exact beforeLineEnd?_of_feed ⟨by decide, by decide⟩ _

/-- A block that holds something, under a label without dashes, is read back from its text. -/
theorem decode?_encode {p : Pem} (hlabel : 45 ∉ p.label) (hcontent : p.content ≠ []) :
    decode? (encode p) = some p := by
  obtain ⟨lines, hwrap, hbounded, hjoined⟩ := exists_lines (Base64.encode_ne_nil hcontent)
    fun x hx => plain_of_visible (Base64.visible_of_mem_encode hx)
  have hpreamble : afterPreamble? (opening ++ tail p) = some (opening ++ tail p) := by
    rw [afterPreamble?, if_pos (by simp)]
  have hdrop : (tail p).drop p.label.length =
      dashes ++ 10 :: (lines ++ [10] ++ closing ++ p.label ++ dashes ++ [10]) := by
    rw [tail, List.drop_left, hwrap]
  have hfeed : ∀ b : Bytes, afterLineEnd? (10 :: b) = some b := fun _ => rfl
  rw [encode_eq]
  simp only [decode?, hpreamble, Bytes.afterPrefix?_append, takeWhile_tail hlabel, hdrop, hfeed,
    beforeLineEnd?_dashes, Bytes.beforeSuffix?_append, hbounded.beforeLineEnd?_append, hjoined,
    Base64.decode?_encode, Option.bind_eq_bind, Option.bind_some, Option.getD_some, Option.pure_def]

/-- The label stands in the text. -/
theorem label_infix_encode (p : Pem) : p.label <:+: encode p := by
  rw [encode_eq, tail, ← List.append_assoc]
  exact List.infix_append _ _ _

/-! ### Characters -/

/-- The lines hold nothing but letters and line feeds. -/
theorem mem_of_mem_wrap {letters : Bytes} {x : UInt8} (h : x ∈ wrap letters) :
    x ∈ letters ∨ x = 10 := by
  fun_induction wrap letters with
  | case1 => cases h
  | case2 letters _ ih =>
    obtain h | h := List.mem_append.1 h
    · exact .inl (List.mem_of_mem_take h)
    · obtain rfl | h := List.mem_cons.1 h
      · exact .inr rfl
      · exact (ih h).imp_left List.mem_of_mem_drop

/-- All that stands in the lines of a block is visible or a line feed. -/
theorem visible_of_mem_wrap_encode {b : Bytes} {x : UInt8} (h : x ∈ wrap (Base64.encode b)) :
    Base64.Visible x ∨ x = 10 :=
  (mem_of_mem_wrap h).imp_left Base64.visible_of_mem_encode

/-- The text of a block under an ASCII label is a text. -/
theorem isSome_toText?_encode {p : Pem} (h : ∀ x ∈ p.label, x < 128) :
    (Bytes.toText? (encode p)).isSome := by
  have hopening : ∀ x ∈ opening, x < 128 := by decide +kernel
  have hclosing : ∀ x ∈ closing, x < 128 := by decide +kernel
  have hdashes : ∀ x ∈ dashes, x < 128 := by decide +kernel
  have hfeed : (10 : UInt8) < 128 := by decide
  have hlines : ∀ x ∈ wrap (Base64.encode p.content), x < 128 := by
    intro x hx
    obtain hvisible | rfl := visible_of_mem_wrap_encode hx
    · exact Nat.lt_of_le_of_lt hvisible.2 (by decide)
    · exact hfeed
  apply Bytes.isSome_toText?
  simp only [encode, List.forall_mem_append, List.forall_mem_cons]
  exact ⟨⟨⟨⟨⟨⟨⟨hopening, h⟩, hdashes⟩, hfeed, hlines⟩, hclosing⟩, h⟩, hdashes⟩, hfeed,
    fun _ hx => nomatch hx⟩

end Pem

end OnionTunnel
