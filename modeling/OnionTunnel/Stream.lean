import OnionTunnel.Message.Frame

/-!
# Frames on a byte stream

A stream hands out its bytes in chunks whose borders mean nothing. Reading a message gathers the
first byte, the rest of the header and the payload that is announced there, each from as many
chunks as it takes. The end of the stream in front of a frame is a clean close, anywhere else a
truncation. A frame of an unregistered kind or with a bad payload is consumed whole, a size field
below the header consumes the header only, so reading can go on after either.

Main statements: `gather_fst` and `gather_snd` say that gathering sees only the joined bytes.
-/

namespace OnionTunnel

/-- What is left of a byte stream, in the chunks in which it is handed out. -/
abbrev Stream := List Bytes

namespace Stream

/-- A byte string in chunks of a given size, the last one shorter. A size of zero stands for one
chunk. -/
def ofBytes (chunk : Nat) (b : Bytes) : Stream :=
  if _h : b = [] ∨ chunk = 0 then if b = [] then [] else [b]
  else b.take chunk :: ofBytes chunk (b.drop chunk)
termination_by b.length
decreasing_by
  have : b ≠ [] := fun e => _h (.inl e)
  have := List.length_pos_iff.2 this
  simp only [List.length_drop]
  omega

/-- Takes chunks until `need` bytes are gathered or the stream ends; the chunks come out in
reverse order, after those gathered before. -/
def gather : Nat → List Bytes → Stream → List Bytes × Stream
  | _, got, [] => (got, [])
  | need, got, chunk :: rest =>
    if chunk.length ≤ need then gather (need - chunk.length) (chunk :: got) rest
    else (chunk.take need :: got, chunk.drop need :: rest)

/-- The gathered bytes are the first `need` bytes of the stream. -/
theorem gather_fst (need : Nat) (got : List Bytes) (s : Stream) :
    (gather need got s).1.reverse.flatten = got.reverse.flatten ++ s.flatten.take need := by
  induction s generalizing need got with
  | nil => simp [gather]
  | cons chunk rest ih =>
    unfold gather
    split
    · next h => simp [ih, List.take_append, List.take_of_length_le h]
    · next h => simp [List.take_append_of_le_length (Nat.le_of_not_le h)]

/-- Gathering leaves the other bytes of the stream. -/
theorem gather_snd (need : Nat) (got : List Bytes) (s : Stream) :
    (gather need got s).2.flatten = s.flatten.drop need := by
  induction s generalizing need got with
  | nil => simp [gather]
  | cons chunk rest ih =>
    unfold gather
    split
    · next h => simp [ih, List.drop_append, List.drop_of_length_le h]
    · next h => simp [List.drop_append_of_le_length (Nat.le_of_not_le h)]

/-- Reads up to `need` bytes; fewer only at the end of the stream. -/
def fill (need : Nat) (s : Stream) : Bytes × Stream :=
  let (got, rest) := gather need [] s
  (got.reverse.flatten, rest)

/-- Filling leaves the other bytes of the stream. -/
theorem fill_snd (need : Nat) (s : Stream) : (fill need s).2.flatten = s.flatten.drop need :=
  gather_snd need [] s

/-- Filling takes the first bytes of the stream. -/
theorem fill_fst (need : Nat) (s : Stream) : (fill need s).1 = s.flatten.take need :=
  (gather_fst need [] s).trans (by simp)

/-- Reads a part of `need` bytes that ends an announced length of `expected` bytes. At the end of
the stream, `actual` is what there is of that length. -/
def readPart (need expected : Nat) (_within : need ≤ expected) (s : Stream) :
    Except FrameError Bytes × Stream :=
  let (got, rest) := fill need s
  if got.length < need then
    (.error (.truncated expected (expected - (need - got.length))), rest)
  else (.ok got, rest)

/-- Reads the payload behind a header. -/
def readBody (header : Header) (s : Stream) : Except FrameError Message × Stream :=
  match readPart header.payloadLength header.size.toNat header.payloadLength_le s with
  | (.error e, rest) => (.error e, rest)
  | (.ok payload, rest) => (Message.decodePayload header.code payload, rest)

/-- Reads a frame behind its first byte. -/
def readFrame (first : Bytes) (s : Stream) : Except FrameError Message × Stream :=
  match readPart (headerLength - 1) headerLength (Nat.sub_le _ _) s with
  | (.error e, rest) => (.error e, rest)
  | (.ok others, rest) =>
    match Header.decode (first ++ others) with
    | .error e => (.error e, rest)
    | .ok header => readBody header rest

/-- Reads one message. -/
def readMessage (s : Stream) : Except FrameError Message × Stream :=
  let (first, rest) := fill 1 s
  if first = [] then (.error .closed, rest) else readFrame first rest

/-- Whether a result is the last that a stream gives. -/
def isEnd : Except FrameError Message → Bool
  | .error .closed | .error (.truncated ..) => true
  | _ => false

/-- Reading a part puts no bytes back. -/
theorem readPart_shortens (need expected : Nat) (h : need ≤ expected) (s : Stream) :
    (readPart need expected h s).2.flatten.length ≤ s.flatten.length := by
  have hrest : (readPart need expected h s).2 = (fill need s).2 := by
    unfold readPart
    dsimp only
    split <;> rfl
  rw [hrest, fill_snd, List.length_drop]
  exact Nat.sub_le _ _

/-- Reading a payload puts no bytes back. -/
theorem readBody_shortens (header : Header) (s : Stream) :
    (readBody header s).2.flatten.length ≤ s.flatten.length := by
  have hpart := readPart_shortens _ _ header.payloadLength_le s
  unfold readBody
  split
  all_goals
    next heq =>
    rw [heq] at hpart
    exact hpart

/-- Reading behind the first byte puts no bytes back. -/
theorem readFrame_shortens (first : Bytes) (s : Stream) :
    (readFrame first s).2.flatten.length ≤ s.flatten.length := by
  have hpart := readPart_shortens (headerLength - 1) headerLength (Nat.sub_le _ _) s
  unfold readFrame
  split
  · next heq =>
    rw [heq] at hpart
    exact hpart
  next rest heq =>
  rw [heq] at hpart
  split
  · exact hpart
  · exact Nat.le_trans (readBody_shortens _ rest) hpart

/-- Every read that is not the last one shortens the stream. -/
theorem readMessage_shorter (s : Stream) (h : isEnd (readMessage s).1 = false) :
    (readMessage s).2.flatten.length < s.flatten.length := by
  revert h
  unfold readMessage
  dsimp only
  split
  · simp [isEnd]
  next hne =>
  intro _
  have hsome : s.flatten ≠ [] := fun hnil => hne (by rw [fill_fst, hnil]; rfl)
  have hpos := List.length_pos_iff.2 hsome
  have hrest := readFrame_shortens (fill 1 s).1 (fill 1 s).2
  rw [fill_snd, List.length_drop] at hrest
  omega

/-- Reads messages until the stream ends; the last result says how it ended. -/
def readAll (s : Stream) : List (Except FrameError Message) :=
  let result := (readMessage s).1
  if _h : isEnd result = true then [result]
  else result :: readAll (readMessage s).2
termination_by s.flatten.length
decreasing_by exact readMessage_shorter s (by simpa using _h)

end Stream

/-- Writes a message behind what is written so far. The result is the number of bytes written by
then, or why the message is left out. -/
def Stream.writeMessage (written : Bytes) (m : Message) : Except FrameError Nat × Bytes :=
  match m.encode with
  | .ok frame => (.ok (written.length + frame.length), written ++ frame)
  | .error e => (.error e, written)

/-- Writes messages one after the other, with the result for each. -/
def Stream.writeAll (ms : List Message) : List (Except FrameError Nat) × Bytes :=
  ms.foldl
    (fun (results, written) m =>
      let (result, written) := writeMessage written m
      (results ++ [result], written))
    ([], [])

end OnionTunnel
