import OnionTunnel.Message.Embedded
import OnionTunnel.Proofs.Message.Grammar

/-!
# No read runs over the end

A reader that asks for more bytes than are left ends with `none`, and so does every reader that it
is a step of. `Header.decode` and `decodePayload` have an answer ready for that case, which hides
whether it comes up. Here the same steps are put together without that answer: the header is looked
at in front of the frame, the frame is cut behind it, and the payload is read by its layout.

Whatever the bytes and the code, these readers end with what the decoding functions give, so that
no step of them has run over the end. The functions that open an embedded handshake read any bytes
at all, and the same is true of them.
-/

namespace OnionTunnel

namespace Reader

variable {ε α β : Type}

/-- How a reader ends, without the bytes that it leaves. -/
def result? (r : Reader ε α) (b : Bytes) : Option (Except ε α) :=
  (r b).map (Except.map Prod.fst)

/-- Reads and puts back what was taken. -/
def ahead (r : Reader ε α) : Reader ε α := fun b =>
  (r b).map (Except.map fun x => (x.1, b))

theorem result?_of_ok {r : Reader ε α} {b rest : Bytes} {a : α} (h : r b = some (.ok (a, rest))) :
    r.result? b = some (.ok a) := by
  rw [result?, h]
  rfl

theorem result?_of_error {r : Reader ε α} {b : Bytes} {e : ε} (h : r b = some (.error e)) :
    r.result? b = some (.error e) := by
  rw [result?, h]
  rfl

theorem result?_eq_none_iff {r : Reader ε α} {b : Bytes} : r.result? b = none ↔ r b = none :=
  Option.map_eq_none_iff

@[simp] theorem result?_ahead (r : Reader ε α) (b : Bytes) : (ahead r).result? b = r.result? b := by
  unfold result? ahead
  cases r b with
  | none => rfl
  | some x => cases x <;> rfl

/-- What was looked at is still there. -/
theorem ahead_ok {r : Reader ε α} {b rest : Bytes} {a : α}
    (h : ahead r b = some (.ok (a, rest))) : rest = b ∧ r.result? b = some (.ok a) := by
  refine ⟨?_, (result?_ahead r b).symm.trans (result?_of_ok h)⟩
  unfold ahead at h
  cases hr : r b with
  | none =>
    rw [hr] at h
    cases h
  | some x =>
    rw [hr] at h
    cases x with
    | error e => cases h
    | ok x => exact (Prod.mk.inj (Except.ok.inj (Option.some.inj h))).2.symm

/-- Two readers that each end with what a function gives, one after the other. -/
theorem result?_bind {r : Reader ε α} {f : α → Reader ε β} {b : Bytes} {x : Except ε α}
    {g : α → Except ε β} (hr : r.result? b = some x)
    (hf : ∀ a rest, r b = some (.ok (a, rest)) → (f a).result? rest = some (g a)) :
    (r >>= f).result? b = some (x >>= g) := by
  cases hread : r b with
  | none =>
    rw [result?_eq_none_iff.2 hread] at hr
    cases hr
  | some y =>
    cases y with
    | error e =>
      obtain rfl := Option.some.inj ((result?_of_error hread).symm.trans hr)
      exact result?_of_error (bind_of_error hread)
    | ok y =>
      obtain ⟨a, rest⟩ := y
      obtain rfl := Option.some.inj ((result?_of_ok hread).symm.trans hr)
      rw [result?, bind_of_ok hread]
      exact hf a rest hread

end Reader

open Reader (result?)

/-- Reads a header, once the length has been checked. -/
def Header.reader : Reader FrameError Header := do
  Message.atLeast headerLength
  Header.read

namespace Message

/-! ### Readers -/

/-- Reads the payload that follows a header with the given code. -/
def payloadReader (code : UInt16) : Reader FrameError Message :=
  match Kind.ofCode? code with
  | none => Reader.fail (.unknownKind code)
  | some kind => readPayload kind

/-- Reads a frame that is all there is: looks at its header, cuts behind it, and reads the
payload. -/
def frameReader : Reader FrameError Message := do
  let total ← Reader.remaining
  let header ← Reader.ahead Header.reader
  let size := header.size.toNat
  if total < size then Reader.fail (.truncated size total)
  else if size < total then Reader.fail (.malformed (.afterFrame (total - size)))
  else
    let _ ← Reader.bytes headerLength
    payloadReader header.code

/-- Reads an embedded first handshake. -/
def embeddedReader1 : Reader FrameError (Bytes × Bytes) := do
  match ← frameReader with
  | handshake1 key mac => return (key, mac)
  | other => Reader.fail (.malformed (.embedded .handshake1 other.kind))

/-- Reads an embedded second handshake. -/
def embeddedReader2 : Reader FrameError Bytes := do
  match ← frameReader with
  | handshake2 mac => return mac
  | other => Reader.fail (.malformed (.embedded .handshake2 other.kind))

/-- A header without its length check runs over the end. -/
example : Header.read [0, 4, 2] = none := rfl

/-! ### What the readers end with -/

theorem headerReader_of_short {b : Bytes} (h : b.length < headerLength) :
    Header.reader b = some (.error (.tooShort b.length headerLength)) :=
  Reader.bind_of_error (atLeast_of_lt h)

theorem headerReader_of_le {b : Bytes} (h : headerLength ≤ b.length) :
    Header.reader b = Header.read b :=
  Reader.bind_of_ok (atLeast_of_le h)

theorem result?_headerReader (b : Bytes) : Header.reader.result? b = some (Header.decode b) := by
  by_cases hshort : b.length < headerLength
  · rw [Header.decode, if_pos hshort]
    exact Reader.result?_of_error (headerReader_of_short hshort)
  · have hlen := Nat.le_of_not_lt hshort
    obtain ⟨size, code, p, hb, hs, hc, -⟩ := exists_parts hlen
    have hread := Header.read_append hs hc p
    rw [← hb] at hread
    rw [Header.decode, if_neg hshort, result?, headerReader_of_le hlen, hread]
    split <;> rfl

/-- A header is found only where there is one. -/
theorem le_of_headerReader {b : Bytes} {h : Header} (hread : Header.reader.result? b = some (.ok h)) :
    headerLength ≤ b.length := by
  refine Nat.le_of_not_lt fun hshort => ?_
  rw [Reader.result?_of_error (headerReader_of_short hshort)] at hread
  cases hread

/-- The checks of a layout cover its reads, and a code without a layout is refused first. -/
theorem result?_payloadReader (code : UInt16) (p : Bytes) :
    (payloadReader code).result? p = some (decodePayload code p) := by
  unfold payloadReader decodePayload
  cases Kind.ofCode? code with
  | none => rfl
  | some k =>
    dsimp only
    cases hfault : k.payloadFault? p with
    | some e =>
      have hread := readPayload_of_fault hfault
      rw [Reader.result?_of_error hread, hread]
    | none =>
      obtain ⟨m, ⟨⟨rest, hread⟩, -⟩⟩ := readPayload_of_sound hfault
      rw [Reader.result?_of_ok hread, hread]

theorem result?_frameReader (b : Bytes) : frameReader.result? b = some (decode b) := by
  rw [frameReader, result?, Reader.bind_of_ok (Reader.remaining_apply b)]
  apply Reader.result?_bind ((Reader.result?_ahead _ b).trans (result?_headerReader b))
  intro header rest hread
  obtain ⟨rfl, hheader⟩ := Reader.ahead_ok hread
  dsimp only
  split
  · rfl
  split
  · rfl
  -- Only now is the frame cut; the header that was seen is the reason that it can be.
  obtain ⟨front, p, rfl, hfront⟩ := Bytes.exists_append (le_of_headerReader hheader)
  rw [result?, Reader.bind_of_ok (Reader.bytes_append hfront), List.drop_left' hfront]
  exact result?_payloadReader header.code p

theorem result?_embeddedReader1 (b : Bytes) :
    embeddedReader1.result? b = some (embedded1 b) := by
  apply Reader.result?_bind (result?_frameReader b)
  intro m rest _
  cases m <;> rfl

theorem result?_embeddedReader2 (b : Bytes) :
    embeddedReader2.result? b = some (embedded2 b) := by
  apply Reader.result?_bind (result?_frameReader b)
  intro m rest _
  cases m <;> rfl

/-- Whatever the code and whatever the bytes, no read runs over the end: a header, a payload, a
frame and an embedded handshake are read to exactly what the decoding functions give, a value or an
error of the format. The bytes can be those of any handshake that a message carries, however deep it
is embedded. -/
theorem reads_covered (code : UInt16) (b : Bytes) :
    Header.reader.result? b = some (Header.decode b) ∧
    (payloadReader code).result? b = some (decodePayload code b) ∧
    frameReader.result? b = some (decode b) ∧
    embeddedReader1.result? b = some (embedded1 b) ∧
    embeddedReader2.result? b = some (embedded2 b) :=
  ⟨result?_headerReader b, result?_payloadReader code b, result?_frameReader b,
    result?_embeddedReader1 b, result?_embeddedReader2 b⟩

end Message

end OnionTunnel
