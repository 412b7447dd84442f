/-!
# Likeness of words

Two words are alike if they have many letters in common at about the same places and in about the
same order. Likeness is a number between zero and one.
-/

namespace OnionTunnel.Likeness

/-- The letters of a word with their places. -/
def places (word : List Char) : List (Nat × Char) :=
  (List.range word.length).zip word

/-- The letters of one word that meet a letter of another at most `reach` places away, each with the
place of the letter it meets. Every letter meets the first one that no letter before it has met. -/
def meetings (reach : Nat) : List (Nat × Char) → List (Nat × Char) → List (Nat × Char)
  | [], _ => []
  | (i, c) :: rest, other =>
    match other.find? fun (j, d) => d = c && j ≤ i + reach && i ≤ j + reach with
    | some (j, _) => (j, c) :: meetings reach rest (other.filter (·.1 ≠ j))
    | none => meetings reach rest other

/-- How alike two words are: the mean of the shares of either word that meets the other, and of the
share of the meetings that keep the order of the letters. -/
def likeness (a b : List Char) : Float :=
  let met := meetings (max a.length b.length / 2 - 1) (places a) (places b)
  let there := (places b).filter fun (j, _) => (met.map (·.1)).contains j
  let moved := ((met.zip there).filter fun (x, y) => x.2 ≠ y.2).length / 2
  if a.isEmpty && b.isEmpty then 1
  else if met.isEmpty then 0
  else
    let share (part whole : Nat) : Float := part.toFloat / whole.toFloat
    (share met.length a.length + share met.length b.length +
      share (met.length - moved) met.length) / 3

/-- The words that are alike enough to be what was meant, the most alike first. -/
def meant (word : String) (candidates : List String) : List String :=
  let rated := candidates.map fun c => (likeness word.toList c.toList, c)
  ((rated.filter fun x => 0.7 < x.1).mergeSort fun x y => y.1 ≤ x.1).map (·.2)

end OnionTunnel.Likeness
