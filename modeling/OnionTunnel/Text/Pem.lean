import OnionTunnel.Text.Base64

/-!
# Labelled text

A byte string in Base64 stands between a line that opens a label and a line that closes it. Every
line of letters has 64 of them, the last one as many as are left. Text may stand before the
opening line; one line end may follow the closing one, and one more may follow the letters unless
it leaves a blank line after padding that ends a full line.
-/

namespace OnionTunnel

/-- A byte string with a label. -/
structure Pem where
  label : Bytes
  content : Bytes
  deriving DecidableEq, Repr

namespace Pem

/-- What opens a block. -/
def opening : Bytes := Bytes.ofText "-----BEGIN "

/-- What closes a block. -/
def closing : Bytes := Bytes.ofText "-----END "

/-- What ends an opening or closing line. -/
def dashes : Bytes := Bytes.ofText "-----"

/-- The letters of a full line. -/
def lineWidth : Nat := 64

/-- Cuts letters into lines, each with its end. -/
def wrap (b : Bytes) : Bytes :=
  if _h : b = [] then [] else b.take lineWidth ++ 10 :: wrap (b.drop lineWidth)
termination_by b.length
decreasing_by
  have := List.length_pos_iff.2 _h
  simp only [List.length_drop, lineWidth]
  omega

/-- The text of a block. -/
def encode (p : Pem) : Bytes :=
  opening ++ p.label ++ dashes ++ 10 :: wrap (Base64.encode p.content) ++
    closing ++ p.label ++ dashes ++ [10]

/-- What follows a line end at the front: a line feed, a carriage return, or both. -/
def afterLineEnd? : Bytes → Option Bytes
  | 10 :: b => some b
  | 13 :: 10 :: b => some b
  | 13 :: b => some b
  | _ => none

/-- A line end has at least one byte. -/
theorem length_lt_of_afterLineEnd? {b rest : Bytes} (h : afterLineEnd? b = some rest) :
    rest.length < b.length := by
  unfold afterLineEnd? at h
  split at h <;> cases h <;> simp only [List.length_cons] <;> omega

/-- What comes before a line end at the back. -/
def beforeLineEnd? (b : Bytes) : Option Bytes :=
  (Bytes.beforeSuffix? [13, 10] b).or
    ((Bytes.beforeSuffix? [10] b).or (Bytes.beforeSuffix? [13] b))

/-- The text from the first opening line on. A zero byte before it is not allowed. -/
def afterPreamble? (b : Bytes) : Option Bytes :=
  if opening.isPrefixOf b then some b else search b
where
  /-- The text from the first opening line after a line feed on. -/
  search : Bytes → Option Bytes
    | [] => none
    | 0 :: _ => none
    | x :: b => if x = 10 ∧ opening.isPrefixOf b then some b else search b

/-- The letters of full lines and a last line, joined. One line end may follow the last line; after a
full line it counts as a blank one, and that line may then have no padding. -/
def unwrap? (b : Bytes) : Option Bytes :=
  if (b.drop lineWidth).isEmpty then some ((beforeLineEnd? b).getD b)
  else
    match _e : afterLineEnd? (b.drop lineWidth) with
    | none => none
    | some rest =>
      if afterLineEnd? rest = some [] then
        if Base64.padding ∈ b.take lineWidth then none else some (b.take lineWidth)
      else (unwrap? rest).map (b.take lineWidth ++ ·)
termination_by b.length
decreasing_by
  have := length_lt_of_afterLineEnd? _e
  simp only [List.length_drop] at this
  omega

/-- The block that a text holds. -/
def decode? (text : Bytes) : Option Pem := do
  let block ← Bytes.afterPrefix? opening (← afterPreamble? text)
  let label := block.takeWhile (· ≠ 45)
  let body ← afterLineEnd? (← Bytes.afterPrefix? dashes (block.drop label.length))
  let body ← Bytes.beforeSuffix? dashes ((beforeLineEnd? body).getD body)
  let body ← Bytes.beforeSuffix? closing (← Bytes.beforeSuffix? label body)
  let letters ← unwrap? (← beforeLineEnd? body)
  return ⟨label, ← Base64.decode? letters⟩

end Pem

end OnionTunnel
