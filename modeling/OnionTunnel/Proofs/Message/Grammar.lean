import OnionTunnel.Proofs.Message.RoundTrip

/-!
# Which byte strings are frames

`frameFault?` says what is wrong with a byte string, and `clearReserved` clears what its kind does
not look at. Reading fails with exactly that fault; what is read is written as the bytes with the
reserved places cleared.

## Implementation notes

A kind's reserved places hold none of the bytes that its layout asks for, so clearing them leaves
the fault as it is.
-/

namespace OnionTunnel

namespace Bytes

/-- Clearing writes zeros at the places and keeps the rest. -/
theorem getElem?_zeroed (places : List Nat) (b : Bytes) (i : Nat) :
    (zeroed places b)[i]? = if i ∈ places then b[i]?.map fun _ => 0 else b[i]? := by
  rw [zeroed, List.getElem?_mapIdx]
  split <;> simp

/-- What follows the front of cleared bytes. -/
theorem drop_zeroed {places places' : List Nat} {n : Nat}
    (h : ∀ i, i ∈ places' ↔ n + i ∈ places) (b : Bytes) :
    (zeroed places b).drop n = zeroed places' (b.drop n) := by
  apply List.ext_getElem
  · simp
  · intro i h₁ h₂
    simp only [zeroed, List.getElem_drop, List.getElem_mapIdx, h]

end Bytes

namespace Kind

/-- The reserved places do not show in what is wrong with a payload. -/
theorem payloadFault?_zeroed (k : Kind) (p : Bytes) :
    k.payloadFault? (p.zeroed k.reserved) = k.payloadFault? p := by
  cases k with
  | incomingHandshake1 =>
    have hlength : (p.zeroed [0, 1]).drop 2 = p.drop 2 := by
      have hfront : ∀ i, i ∈ [] ↔ 2 + i ∈ [0, 1] := by
        simp
        omega
      rw [Bytes.drop_zeroed hfront, Bytes.zeroed_none]
    simp only [payloadFault?, reserved, Bytes.length_zeroed, hlength]
  | layerEncrypt | layerDecrypt =>
    have hcount : (p.zeroed [1]).take 1 = p.take 1 := Bytes.take_zeroed (by simp) p
    simp only [payloadFault?, reserved, Bytes.length_zeroed, hcount]
  | _ => simp only [payloadFault?, Bytes.length_zeroed]

end Kind

namespace Message

/-- The code that stands in a frame. -/
def frameCode (b : Bytes) : UInt16 :=
  UInt16.ofNat (Bytes.toNat ((b.drop 2).take 2))

/-- The places of a frame that carry nothing. -/
def frameReserved (b : Bytes) : List Nat :=
  match Kind.ofCode? (frameCode b) with
  | some k => k.reserved.map (headerLength + ·)
  | none => []

/-- A frame with its reserved places cleared. -/
def clearReserved (b : Bytes) : Bytes :=
  b.zeroed (frameReserved b)

/-- What is wrong with a byte string as a frame; the first that applies. -/
def frameFault? (b : Bytes) : Option FrameError :=
  let size := Bytes.toNat (b.take 2)
  if b.length < headerLength then some (.tooShort b.length headerLength)
  else if size < headerLength then some (.invalidSize (UInt16.ofNat size))
  else if b.length < size then some (.truncated size b.length)
  else if size < b.length then some (.malformed (.afterFrame (b.length - size)))
  else
    match Kind.ofCode? (frameCode b) with
    | none => some (.unknownKind (frameCode b))
    | some k => k.payloadFault? (b.drop headerLength)

@[simp] theorem length_clearReserved (b : Bytes) : (clearReserved b).length = b.length :=
  Bytes.length_zeroed _ _

/-- The reserved places lie behind the header. -/
theorem take_clearReserved {n : Nat} (h : n ≤ headerLength) (b : Bytes) :
    (clearReserved b).take n = b.take n := by
  refine Bytes.take_zeroed (fun i hi => ?_) b
  unfold frameReserved at hi
  split at hi
  · obtain ⟨j, -, rfl⟩ := List.mem_map.1 hi
    omega
  · cases hi

@[simp] theorem frameCode_clearReserved (b : Bytes) :
    frameCode (clearReserved b) = frameCode b := by
  have hcode (b : Bytes) : (b.drop 2).take 2 = (b.take headerLength).drop 2 := by
    rw [List.drop_take]
    rfl
  rw [frameCode, frameCode, hcode, hcode b, take_clearReserved (Nat.le_refl _)]

/-- Behind the header, the reserved places are those of the payload. -/
theorem drop_clearReserved {b : Bytes} {k : Kind} (h : Kind.ofCode? (frameCode b) = some k) :
    (clearReserved b).drop headerLength = Bytes.zeroed k.reserved (b.drop headerLength) := by
  apply Bytes.drop_zeroed
  intro i
  simp [frameReserved, h]

/-- The reserved places do not show in what is wrong with a frame. -/
theorem frameFault?_clearReserved (b : Bytes) : frameFault? (clearReserved b) = frameFault? b := by
  simp only [frameFault?, length_clearReserved, frameCode_clearReserved,
    take_clearReserved (n := 2) (by decide)]
  cases hk : Kind.ofCode? (frameCode b) with
  | none => rfl
  | some k => simp only [drop_clearReserved hk, Kind.payloadFault?_zeroed]

/-- A frame without a fault has a header that announces its length and the code of a kind, and a
payload without a fault. -/
theorem frameFault?_eq_none {b : Bytes} :
    frameFault? b = none ↔ headerLength ≤ b.length ∧ Bytes.toNat (b.take 2) = b.length ∧
      ∃ k, Kind.ofCode? (frameCode b) = some k ∧ k.payloadFault? (b.drop headerLength) = none := by
  unfold frameFault?
  constructor
  · intro h
    dsimp only at h
    split at h
    · cases h
    split at h
    · cases h
    split at h
    · cases h
    split at h
    · cases h
    cases hk : Kind.ofCode? (frameCode b) with
    | none => simp [hk] at h
    | some k => exact ⟨by omega, by omega, k, rfl, by simpa [hk] using h⟩
  · rintro ⟨hlen, hsize, k, hk, hsound⟩
    dsimp only
    rw [if_neg (by omega), if_neg (by omega), if_neg (by omega), if_neg (by omega), hk]
    exact hsound

/-! ### Reading frames -/

/-- The parts of a byte string that holds a header. -/
theorem exists_parts {b : Bytes} (h : headerLength ≤ b.length) :
    ∃ size code p : Bytes, b = size ++ (code ++ p) ∧ size.length = 2 ∧ code.length = 2 ∧
      b.take 2 = size ∧ b.take headerLength = size ++ code ∧
      frameCode b = UInt16.ofNat code.toNat := by
  simp only [headerLength] at h
  obtain ⟨size, q, rfl, hs⟩ := Bytes.exists_append (b := b) (n := 2) (by omega)
  obtain ⟨code, p, rfl, hc⟩ := Bytes.exists_append (b := q) (n := 2) (by simp at h; omega)
  refine ⟨size, code, p, rfl, hs, hc, List.take_left' hs, ?_, ?_⟩
  · rw [← List.append_assoc, List.take_left' (by simp [hs, hc, headerLength])]
  · rw [frameCode, List.drop_left' hs, List.take_left' hc]

theorem decode_of_short {b : Bytes} (h : b.length < headerLength) :
    decode b = .error (.tooShort b.length headerLength) := by
  rw [decode, Header.decode, if_pos h]
  rfl

/-- Reading a byte string that holds a header. -/
theorem decode_of_header {b : Bytes} (h : headerLength ≤ b.length) :
    decode b =
      let size := Bytes.toNat (b.take 2)
      if size < headerLength then .error (.invalidSize (UInt16.ofNat size))
      else if b.length < size then .error (.truncated size b.length)
      else if size < b.length then .error (.malformed (.afterFrame (b.length - size)))
      else decodePayload (frameCode b) (b.drop headerLength) := by
  obtain ⟨size, code, p, hb, hs, hc, hsize, -, hcode⟩ := exists_parts h
  have hlt := Bytes.toNat_lt size
  rw [hs] at hlt
  have hword : (UInt16.ofNat size.toNat).toNat = size.toNat :=
    UInt16.toNat_ofNat_of_lt' (by simpa using hlt)
  have hread := Header.read_append hs hc p
  rw [← hb] at hread
  rw [hsize, hcode, decode, Header.decode, if_neg (by omega), hread]
  by_cases hsmall : size.toNat < headerLength
  · simp only [if_pos hsmall]
    rfl
  · simp only [if_neg hsmall, bind, Except.bind, hword]

/-- Reading fails with exactly what is wrong with the frame. -/
theorem decode_of_fault {b : Bytes} {e : FrameError} (h : frameFault? b = some e) :
    decode b = .error e := by
  by_cases hshort : b.length < headerLength
  · rw [frameFault?, if_pos hshort] at h
    rw [decode_of_short hshort, Option.some.inj h]
  · simp only [frameFault?, if_neg hshort] at h
    rw [decode_of_header (Nat.le_of_not_lt hshort)]
    dsimp only
    split at h
    · next hsize => rw [if_pos hsize, Option.some.inj h]
    next hsize =>
    rw [if_neg hsize]
    split at h
    · next hlong => rw [if_pos hlong, Option.some.inj h]
    next hlong =>
    rw [if_neg hlong]
    split at h
    · next hextra => rw [if_pos hextra, Option.some.inj h]
    next hextra =>
    rw [if_neg hextra]
    cases hk : Kind.ofCode? (frameCode b) with
    | none =>
      simp only [hk] at h
      rw [decodePayload, hk, ← Option.some.inj h]
    | some k =>
      simp only [hk] at h
      rw [← Kind.code_of_ofCode? hk, decodePayload_of_error (readPayload_of_fault h)]

/-- The header of a frame without a fault is the one that is written for its payload. -/
theorem take_header {b : Bytes} {k : Kind} (hlen : headerLength ≤ b.length)
    (hsize : Bytes.toNat (b.take 2) = b.length) (hk : k.code = frameCode b) :
    b.take headerLength = Header.encode ⟨UInt16.ofNat b.length, k.code⟩ := by
  obtain ⟨size, code, p, -, hs, hc, htake, hheader, hcode⟩ := exists_parts hlen
  rw [htake] at hsize
  rw [hheader, hk, hcode, ← hsize, Header.encode, Bytes.word16_toNat hs, Bytes.word16_toNat hc]

/-- A byte string with nothing wrong in it is read as a message that is written as that string,
but for the reserved places. -/
theorem decode_of_sound {b : Bytes} (h : frameFault? b = none) :
    ∃ m, decode b = .ok m ∧ m.encode = .ok (clearReserved b) ∧ m.canonical = m ∧ ¬ m.Blank := by
  obtain ⟨hlen, hsize, k, hk, hsound⟩ := frameFault?_eq_none.1 h
  obtain ⟨m, ⟨⟨rest, hread⟩, hkind, hwrite, hcanon, hblank⟩⟩ := readPayload_of_sound hsound
  have hcode := Kind.code_of_ofCode? hk
  refine ⟨m, ?_, encode_ok.2 ⟨_, hwrite, ?_, ?_⟩, hcanon, hblank⟩
  · rw [decode_of_header hlen]
    dsimp only
    rw [if_neg (by omega), if_neg (by omega), if_neg (by omega), ← hcode,
      decodePayload_of_ok hread]
  · have hlt := Bytes.toNat_lt (b.take 2)
    rw [hsize, List.length_take_of_le (by unfold headerLength at hlen; omega)] at hlt
    rw [Bytes.length_zeroed, List.length_drop, maxPayload, maxFrame]
    omega
  · have hpayload : headerLength + (b.drop headerLength).length = b.length := by
      rw [List.length_drop]
      omega
    rw [Bytes.length_zeroed, hpayload, hkind, ← take_header hlen hsize hcode,
      ← drop_clearReserved hk, ← take_clearReserved (Nat.le_refl _), List.take_append_drop]

theorem decode_ok {b : Bytes} {m : Message} (h : decode b = .ok m) : frameFault? b = none := by
  cases hf : frameFault? b with
  | none => rfl
  | some e =>
    rw [decode_of_fault hf] at h
    cases h

/-- What was read is written as the bytes with the reserved places cleared. -/
theorem encode_of_decode {b : Bytes} {m : Message} (h : decode b = .ok m) :
    m.encode = .ok (clearReserved b) ∧ m.canonical = m ∧ ¬ m.Blank := by
  obtain ⟨m', hdecode, hwritten⟩ := decode_of_sound (decode_ok h)
  rw [h] at hdecode
  obtain rfl := Except.ok.inj hdecode
  exact hwritten

/-- The frames are the byte strings without a fault: what is read is written as the bytes with the
reserved places cleared, which are read alike. A byte string is read exactly when clearing them
gives the frame of a message that is not a handshake without sealed blocks, and every other one
fails with the first thing that is wrong with it. -/
theorem decode_exact (b : Bytes) :
    (∀ m, decode b = .ok m →
      m.encode = .ok (clearReserved b) ∧ (clearReserved b).length = b.length ∧
        (∀ i, i ∉ frameReserved b → (clearReserved b)[i]? = b[i]?) ∧
        (∀ i ∈ frameReserved b, i < b.length → (clearReserved b)[i]? = some 0) ∧
        decode (clearReserved b) = .ok m) ∧
    ((∃ m, decode b = .ok m) ↔ ∃ m : Message, ¬ m.Blank ∧ m.encode = .ok (clearReserved b)) ∧
    ∀ e, decode b = .error e ↔ frameFault? b = some e := by
  refine ⟨fun m h => ?_, ⟨?_, ?_⟩, fun e => ⟨fun h => ?_, decode_of_fault⟩⟩
  · obtain ⟨hencode, hcanon, hblank⟩ := encode_of_decode h
    refine ⟨hencode, length_clearReserved b, ?_, ?_, ?_⟩
    · intro i hi
      rw [clearReserved, Bytes.getElem?_zeroed, if_neg hi]
    · intro i hi hlt
      rw [clearReserved, Bytes.getElem?_zeroed, if_pos hi, List.getElem?_eq_getElem hlt]
      rfl
    · rw [decode_canonical hencode hblank, hcanon]
  · rintro ⟨m, h⟩
    obtain ⟨hencode, -, hblank⟩ := encode_of_decode h
    exact ⟨m, hblank, hencode⟩
  · rintro ⟨m, hblank, hencode⟩
    have hsound := decode_ok (decode_canonical hencode hblank)
    rw [frameFault?_clearReserved] at hsound
    obtain ⟨m', hdecode, -⟩ := decode_of_sound hsound
    exact ⟨m', hdecode⟩
  · cases hf : frameFault? b with
    | none =>
      obtain ⟨m, hdecode, -⟩ := decode_of_sound hf
      rw [hdecode] at h
      cases h
    | some e' =>
      rw [decode_of_fault hf] at h
      rw [Except.error.inj h]

end Message

end OnionTunnel
