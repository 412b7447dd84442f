import OnionTunnel.Proofs.Message.Grammar
import OnionTunnel.Stream

/-!
# Framing on a byte stream

`parseOne` reads one frame off a byte string and says how many bytes that takes; `parse` does so
until the bytes end. Reading messages off a stream gives what `parse` gives for the joined bytes,
call by call, wherever the chunks are cut. So frames that were written one behind the other are
read back one by one, and a frame that is not understood takes no other with it.

## Implementation notes

A part of a frame is read knowing that it ends the length that is announced for it, so what is
missing of the part is never more than that length. The subtraction that a truncation reports is
one of natural numbers, and a result other than zero shows that nothing was cut off there.
-/

namespace OnionTunnel

/-! ### The reference parser -/

namespace Stream

/-- The first frame of a byte string: what is read there, and how many bytes that takes. -/
def parseOne (b : Bytes) : Except FrameError Message × Nat :=
  let size := Bytes.toNat (b.take 2)
  if b.length = 0 then (.error .closed, 0)
  else if b.length < headerLength then (.error (.truncated headerLength b.length), b.length)
  else if size < headerLength then (.error (.invalidSize (UInt16.ofNat size)), headerLength)
  else if b.length < size then (.error (.truncated size b.length), b.length)
  else (Message.decodePayload (Message.frameCode b) ((b.take size).drop headerLength), size)

/-- A frame that is not the last one takes at least a header. -/
theorem le_parseOne {b : Bytes} (h : isEnd (parseOne b).1 = false) :
    headerLength ≤ (parseOne b).2 ∧ (parseOne b).2 ≤ b.length := by
  revert h
  unfold parseOne
  dsimp only
  split
  · simp [isEnd]
  split
  · simp [isEnd]
  next hheader =>
  split
  · intro _
    exact ⟨Nat.le_refl _, Nat.le_of_not_lt hheader⟩
  next hsize =>
  split
  · simp [isEnd]
  next hbody =>
  intro _
  exact ⟨Nat.le_of_not_lt hsize, Nat.le_of_not_lt hbody⟩

/-- The frames of a byte string, to its end. -/
def parse (b : Bytes) : List (Except FrameError Message) :=
  let result := (parseOne b).1
  if _h : isEnd result = true then [result]
  else result :: parse (b.drop (parseOne b).2)
termination_by b.length
decreasing_by
  obtain ⟨htaken, hle⟩ := le_parseOne (b := b) (by simpa using _h)
  rw [List.length_drop]
  simp only [headerLength] at htaken
  omega

theorem parse_of_end {b : Bytes} (h : isEnd (parseOne b).1 = true) :
    parse b = [(parseOne b).1] := by
  rw [parse]
  simp [h]

theorem parse_of_frame {b : Bytes} (h : isEnd (parseOne b).1 = false) :
    parse b = (parseOne b).1 :: parse (b.drop (parseOne b).2) := by
  rw [parse]
  simp [h]

/-! ### Every chunking is read as the joined bytes -/

/-- A part that is there is read whole. -/
theorem readPart_of_le {need expected : Nat} (h : need ≤ expected) {s : Stream}
    (hthere : need ≤ s.flatten.length) :
    ∃ rest, readPart need expected h s = (.ok (s.flatten.take need), rest) ∧
      rest.flatten = s.flatten.drop need := by
  have hwhole : ¬ (s.flatten.take need).length < need := by
    rw [List.length_take_of_le hthere]
    exact Nat.lt_irrefl need
  refine ⟨(fill need s).2, ?_, fill_snd need s⟩
  simp only [readPart, fill_fst, if_neg hwhole]

/-- Where a part is not there, what is counted is what came before it and what is left for it. -/
theorem readPart_of_lt {need expected : Nat} (h : need ≤ expected) {s : Stream}
    (hshort : s.flatten.length < need) :
    ∃ rest, readPart need expected h s =
        (.error (.truncated expected (expected - need + s.flatten.length)), rest) ∧
      rest.flatten = [] := by
  have hall : (s.flatten.take need).length = s.flatten.length := by
    rw [List.take_of_length_le (Nat.le_of_lt hshort)]
  have hactual : expected - (need - s.flatten.length) = expected - need + s.flatten.length := by
    omega
  refine ⟨(fill need s).2, ?_, ?_⟩
  · simp only [readPart, fill_fst, hall, if_pos hshort, hactual]
  · rw [fill_snd, List.drop_eq_nil_of_le (Nat.le_of_lt hshort)]

/-- The header in the first bytes of a frame. -/
theorem decode_take_header {b : Bytes} (h : headerLength ≤ b.length) :
    Header.decode (b.take headerLength) =
      if Bytes.toNat (b.take 2) < headerLength then
        .error (.invalidSize (UInt16.ofNat (Bytes.toNat (b.take 2))))
      else .ok ⟨UInt16.ofNat (Bytes.toNat (b.take 2)), Message.frameCode b⟩ := by
  obtain ⟨size, code, p, -, hs, hc, hsize, hheader, hcode⟩ := Message.exists_parts h
  have hlength : ¬ (size ++ code).length < headerLength := by
    rw [List.length_append, hs, hc]
    decide
  have hread := Header.read_append hs hc []
  rw [List.append_nil] at hread
  rw [hsize, hheader, hcode, Header.decode, if_neg hlength, hread]
  by_cases hsmall : size.toNat < headerLength
  · simp only [if_pos hsmall]
  · simp only [if_neg hsmall]

/-- A size field is the number in the first two bytes. -/
theorem toNat_size (b : Bytes) :
    (UInt16.ofNat (Bytes.toNat (b.take 2))).toNat = Bytes.toNat (b.take 2) := by
  apply UInt16.toNat_ofNat_of_lt'
  calc Bytes.toNat (b.take 2) < 256 ^ (b.take 2).length := Bytes.toNat_lt _
    _ ≤ 256 ^ 2 := Nat.pow_le_pow_right (by decide) (List.length_take_le 2 b)

variable {s : Stream}

theorem readMessage_of_nil (h : s.flatten = []) :
    (readMessage s).1 = .error .closed ∧ (readMessage s).2.flatten = [] := by
  simp [readMessage, fill_fst, fill_snd, h]

/-- The first byte and the rest of the header come from separate reads. -/
theorem readMessage_of_cons (h : s.flatten ≠ []) :
    ∃ rest, rest.flatten = s.flatten.drop 1 ∧
      readMessage s = readFrame (s.flatten.take 1) rest := by
  have hne : s.flatten.take 1 ≠ [] := by simpa using h
  refine ⟨(fill 1 s).2, fill_snd 1 s, ?_⟩
  simp only [readMessage, fill_fst, if_neg hne]

theorem readMessage_of_short (h : s.flatten ≠ []) (hshort : s.flatten.length < headerLength) :
    (readMessage s).1 = .error (.truncated headerLength s.flatten.length) ∧
      (readMessage s).2.flatten = [] := by
  have hpos := List.length_pos_iff.2 h
  obtain ⟨rest, hrest, hread⟩ := readMessage_of_cons h
  have hless : rest.flatten.length < headerLength - 1 := by
    rw [hrest, List.length_drop]
    omega
  have hactual : headerLength - (headerLength - 1) + rest.flatten.length = s.flatten.length := by
    rw [hrest, List.length_drop, headerLength]
    omega
  obtain ⟨rest', hpart, hnil⟩ := readPart_of_lt (Nat.sub_le headerLength 1) hless
  rw [hread, readFrame, hpart, hactual]
  exact ⟨rfl, hnil⟩

/-- Behind a whole header stands what it announces. -/
theorem readMessage_of_header (h : headerLength ≤ s.flatten.length) :
    ∃ rest, rest.flatten = s.flatten.drop headerLength ∧
      readMessage s =
        match Header.decode (s.flatten.take headerLength) with
        | .error e => (.error e, rest)
        | .ok header => readBody header rest := by
  have hcons : s.flatten ≠ [] := List.ne_nil_of_length_pos (Nat.lt_of_lt_of_le (by decide) h)
  obtain ⟨rest, hrest, hread⟩ := readMessage_of_cons hcons
  have henough : headerLength - 1 ≤ rest.flatten.length := by
    rw [hrest, List.length_drop]
    exact Nat.sub_le_sub_right h 1
  have hhead : s.flatten.take 1 ++ rest.flatten.take (headerLength - 1) =
      s.flatten.take headerLength := by
    rw [hrest, ← List.take_add]
    rfl
  obtain ⟨rest', hpart, hdrop⟩ := readPart_of_le (Nat.sub_le headerLength 1) henough
  refine ⟨rest', ?_, ?_⟩
  · rw [hdrop, hrest, List.drop_drop]
    rfl
  · rw [hread, readFrame, hpart]
    dsimp only
    rewrite [hhead]
    cases Header.decode (s.flatten.take headerLength) <;> rfl

/-- The payload is read whole, or what there is of the frame is counted. -/
theorem readBody_eq {header : Header} {b : Bytes} (hb : headerLength ≤ b.length)
    (hsize : headerLength ≤ header.size.toNat) (hs : s.flatten = b.drop headerLength) :
    (readBody header s).1 =
        (if b.length < header.size.toNat then .error (.truncated header.size.toNat b.length)
        else Message.decodePayload header.code ((b.take header.size.toNat).drop headerLength)) ∧
      (readBody header s).2.flatten = b.drop header.size.toNat := by
  have hneed : header.payloadLength = header.size.toNat - headerLength := rfl
  have hlength : s.flatten.length = b.length - headerLength := by rw [hs, List.length_drop]
  unfold readBody
  by_cases hshort : b.length < header.size.toNat
  · have hless : s.flatten.length < header.payloadLength := by omega
    have hactual : header.size.toNat - header.payloadLength + s.flatten.length = b.length := by
      omega
    obtain ⟨rest, hpart, hnil⟩ := readPart_of_lt header.payloadLength_le hless
    rw [hpart, if_pos hshort, hactual, List.drop_eq_nil_of_le (Nat.le_of_lt hshort)]
    exact ⟨rfl, hnil⟩
  · have henough : header.payloadLength ≤ s.flatten.length := by omega
    have hpayload : s.flatten.take header.payloadLength =
        (b.take header.size.toNat).drop headerLength := by
      rw [hs, hneed, List.drop_take]
    obtain ⟨rest, hpart, hdrop⟩ := readPart_of_le header.payloadLength_le henough
    rw [hpart, if_neg hshort, hpayload]
    refine ⟨rfl, ?_⟩
    rw [hdrop, hs, List.drop_drop, hneed, Nat.add_sub_cancel' hsize]

/-- A call takes the first frame of the joined bytes, exactly as the reference parser does. -/
theorem readMessage_eq (s : Stream) :
    (readMessage s).1 = (parseOne s.flatten).1 ∧
      (readMessage s).2.flatten = s.flatten.drop (parseOne s.flatten).2 := by
  unfold parseOne
  dsimp only
  by_cases hnone : s.flatten.length = 0
  · have hnil := List.eq_nil_of_length_eq_zero hnone
    rw [if_pos hnone, hnil]
    exact readMessage_of_nil hnil
  have hne : s.flatten ≠ [] := fun hnil => hnone (by rw [hnil]; rfl)
  rw [if_neg hnone]
  by_cases hshort : s.flatten.length < headerLength
  · rw [if_pos hshort, List.drop_length]
    exact readMessage_of_short hne hshort
  have hheader := Nat.le_of_not_lt hshort
  obtain ⟨rest, hrest, hread⟩ := readMessage_of_header hheader
  rw [decode_take_header hheader] at hread
  rw [if_neg hshort]
  by_cases hsize : Bytes.toNat (s.flatten.take 2) < headerLength
  · rw [if_pos hsize] at hread ⊢
    rw [hread]
    exact ⟨rfl, hrest⟩
  rw [if_neg hsize] at hread ⊢
  have hnumber := toNat_size s.flatten
  generalize UInt16.ofNat (Bytes.toNat (s.flatten.take 2)) = size at hread hnumber
  have hlarge : headerLength ≤ size.toNat := by
    rw [hnumber]
    exact Nat.le_of_not_lt hsize
  obtain ⟨hresult, hleft⟩ := @readBody_eq rest ⟨size, Message.frameCode s.flatten⟩ _ hheader hlarge
    hrest
  rw [hread]
  dsimp only at hresult hleft ⊢
  rw [hresult, hleft, hnumber]
  split
  · next hbody =>
    exact ⟨rfl, by rw [List.drop_length, List.drop_eq_nil_of_le (Nat.le_of_lt hbody)]⟩
  · exact ⟨rfl, rfl⟩

/-! ### Where reading ends -/

/-- What is wrong with a payload never looks like the end of the stream. -/
theorem isEnd_of_fault {k : Kind} {p : Bytes} {e : FrameError} (h : k.payloadFault? p = some e) :
    isEnd (.error e) = false := by
  have hshort {minimum length : Nat} (h : Kind.shortFault? minimum length = some e) :
      isEnd (.error e) = false := by
    obtain ⟨-, h⟩ := Option.ite_none_right_eq_some.1 h
    rw [← Option.some.inj h]
    rfl
  have hexact {expected length : Nat} (h : Kind.exactFault? expected length = some e) :
      isEnd (.error e) = false := by
    unfold Kind.exactFault? at h
    split at h
    · rw [← Option.some.inj h]
      rfl
    · obtain ⟨-, h⟩ := Option.ite_none_right_eq_some.1 h
      rw [← Option.some.inj h]
      rfl
  cases k with
  | rpsQuery | sessionConfirmed | sessionDeclined | tunnelDestroy | cover | sessionClose
  | tunnelError => exact hexact h
  | sessionStart => cases h
  | incomingHandshake1 | layerEncrypt | layerDecrypt =>
    obtain h | ⟨-, h⟩ := Option.or_eq_some_iff.1 h
    · exact hshort h
    · exact hshort h
  | handshake1 =>
    obtain h | ⟨-, h⟩ := Option.or_eq_some_iff.1 h
    · exact hshort h
    · obtain ⟨-, h⟩ := Option.ite_none_right_eq_some.1 h
      rw [← Option.some.inj h]
      rfl
  | _ => exact hshort h

theorem isEnd_decodePayload (code : UInt16) (p : Bytes) :
    isEnd (Message.decodePayload code p) = false := by
  cases hk : Kind.ofCode? code with
  | none =>
    rw [Message.decodePayload, hk]
    rfl
  | some k =>
    rw [← Kind.code_of_ofCode? hk]
    cases hfault : k.payloadFault? p with
    | some e =>
      rw [Message.decodePayload_of_error (Message.readPayload_of_fault hfault)]
      exact isEnd_of_fault hfault
    | none =>
      obtain ⟨m, ⟨⟨rest, hread⟩, -⟩⟩ := Message.readPayload_of_sound hfault
      rw [Message.decodePayload_of_ok hread]
      rfl

/-- A reading ends with a close or a truncation, and each result before that took a header. -/
theorem exists_parse (b : Bytes) :
    ∃ results last, parse b = results ++ [last] ∧ isEnd last = true ∧
      (∀ r ∈ results, isEnd r = false) ∧ headerLength * results.length ≤ b.length := by
  induction b using parse.induct with
  | case1 b result hend =>
    exact ⟨[], result, parse_of_end hend, hend, by simp, by simp⟩
  | case2 b result hend ih =>
    have hframe : isEnd result = false := by simpa using hend
    obtain ⟨htaken, hle⟩ := le_parseOne hframe
    obtain ⟨results, last, hparse, hlast, hresults, hcount⟩ := ih
    refine ⟨result :: results, last, ?_, hlast, ?_, ?_⟩
    · rw [parse_of_frame hframe, hparse, List.cons_append]
    · simpa [hframe] using hresults
    · rw [List.length_drop] at hcount
      rw [List.length_cons, Nat.mul_succ]
      omega

/-- Reading a stream to its end gives the frames of the joined bytes. -/
theorem readAll_eq (s : Stream) : readAll s = parse s.flatten := by
  induction s using readAll.induct with
  | case1 s result hend =>
    have hresult : result = (parseOne s.flatten).1 := (readMessage_eq s).1
    rw [readAll, dif_pos hend, parse_of_end (by rwa [← hresult]), ← hresult]
  | case2 s result hend ih =>
    obtain ⟨hresult, hrest⟩ := readMessage_eq s
    have hframe : isEnd (parseOne s.flatten).1 = false := by
      rw [← hresult]
      simpa using hend
    rw [readAll, dif_neg hend, parse_of_frame hframe, ih, hrest, hresult]

/-- A truncation counts the bytes that were left. There was one and one was missing. -/
theorem actual_of_truncated {b : Bytes} {expected actual : Nat}
    (h : (parseOne b).1 = .error (.truncated expected actual)) :
    0 < actual ∧ actual < expected ∧ actual = b.length := by
  unfold parseOne at h
  dsimp only at h
  split at h
  · cases h
  next hsome =>
  split at h
  · next hshort =>
    obtain ⟨rfl, rfl⟩ := FrameError.truncated.inj (Except.error.inj h)
    exact ⟨Nat.pos_of_ne_zero hsome, hshort, rfl⟩
  split at h
  · cases h
  split at h
  · next hshort =>
    obtain ⟨rfl, rfl⟩ := FrameError.truncated.inj (Except.error.inj h)
    exact ⟨Nat.pos_of_ne_zero hsome, hshort, rfl⟩
  · have hnot := isEnd_decodePayload (Message.frameCode b)
      ((b.take (Bytes.toNat (b.take 2))).drop headerLength)
    dsimp only at h
    rw [h] at hnot
    cases hnot

/-! ### What is written is read back -/

/-- A frame is taken whole, whatever follows it. -/
theorem parseOne_append {h : Header} {p : Bytes} (hsize : h.size.toNat = headerLength + p.length)
    (rest : Bytes) :
    parseOne (h.encode ++ p ++ rest) =
      (Message.decodePayload h.code p, headerLength + p.length) := by
  have hlength : (h.encode ++ p ++ rest).length = headerLength + p.length + rest.length := by
    rw [List.length_append, List.length_append, Header.length_encode]
  have hheader : headerLength ≤ (h.encode ++ p ++ rest).length := by omega
  have htake : (h.encode ++ p ++ rest).take headerLength = h.encode := by
    rw [List.append_assoc, List.take_left' h.length_encode]
  have hdecode := decode_take_header hheader
  rw [htake, ← List.append_nil h.encode, Header.decode_encode (by omega), List.append_nil]
    at hdecode
  split at hdecode
  · cases hdecode
  next hlarge =>
  have hcode := congrArg Header.code (Except.ok.inj hdecode)
  have hnumber := congrArg (fun h => h.size.toNat) (Except.ok.inj hdecode)
  dsimp only at hcode hnumber
  rw [toNat_size, hsize] at hnumber
  have hpayload : ((h.encode ++ p ++ rest).take (headerLength + p.length)).drop headerLength =
      p := by
    rw [List.take_left' (by simp), List.drop_left' h.length_encode]
  rw [parseOne, ← hnumber, ← hcode, hpayload,
    if_neg (by simp only [headerLength] at hheader; omega), if_neg (by omega), if_neg (by omega),
    if_neg (by omega)]

/-- What is put on a stream: a message, or a frame of a kind that is not registered. -/
inductive Item where
  | message (m : Message)
  | foreign (code : UInt16) (payload : Bytes)

namespace Item

/-- A message whose frame is read, or a foreign frame that fits. -/
def Sound : Item → Prop
  | message m => ∃ f m', m.encode = .ok f ∧ Message.decode f = .ok m'
  | foreign code payload => Kind.ofCode? code = none ∧ payload.length ≤ maxPayload

/-- The bytes written so far, and the item behind them. -/
def put (written : Bytes) : Item → Bytes
  | message m => (writeMessage written m).2
  | foreign code payload =>
    written ++ (Header.encode ⟨UInt16.ofNat (headerLength + payload.length), code⟩ ++ payload)

/-- What comes back for an item. -/
def read : Item → Except FrameError Message
  | message m => .ok m.canonical
  | foreign code _ => .error (.unknownKind code)

/-- An item is put behind what is written as one frame, which is read as that item. -/
theorem Sound.exists_frame {i : Item} (h : i.Sound) :
    ∃ (header : Header) (p : Bytes), header.size.toNat = headerLength + p.length ∧
      (∀ written, put written i = written ++ (header.encode ++ p)) ∧
      Message.decodePayload header.code p = i.read := by
  cases i with
  | message m =>
    obtain ⟨f, m', hencode, hdecode⟩ := h
    obtain ⟨p, -, hle, hframe⟩ := Message.encode_ok.1 hencode
    have htransmit : m.transmit = .ok m' := by
      rw [Message.transmit, hencode]
      exact hdecode
    have hsize := Message.size_toNat hle
    generalize UInt16.ofNat (headerLength + p.length) = size at hframe hsize
    refine ⟨⟨size, m.kind.code⟩, p, hsize, ?_, ?_⟩
    · intro written
      simp only [put, writeMessage, hencode, hframe]
    · rw [← Message.decode_header_append (h := ⟨size, m.kind.code⟩) hsize, ← hframe, hdecode,
        Message.transmit_ok htransmit]
      rfl
  | foreign code payload =>
    obtain ⟨hcode, hle⟩ := h
    refine ⟨⟨_, code⟩, payload, Message.size_toNat hle, fun _ => rfl, ?_⟩
    rw [Message.decodePayload, hcode]
    rfl

/-- Putting appends to what is written. -/
theorem foldl_put (items : List Item) (hsound : ∀ i ∈ items, i.Sound) (written : Bytes) :
    items.foldl put written = written ++ items.foldl put [] := by
  induction items generalizing written with
  | nil => simp
  | cons i items ih =>
    obtain ⟨header, p, -, hput, -⟩ := (hsound i List.mem_cons_self).exists_frame
    have hrest := ih fun j hj => hsound j (List.mem_cons_of_mem _ hj)
    rw [List.foldl_cons, List.foldl_cons, hrest, hrest (put [] i), hput, hput, List.nil_append,
      List.append_assoc]

/-- Items written one behind the other are read back one by one, up to the close. -/
theorem parse_foldl_put (items : List Item) (hsound : ∀ i ∈ items, i.Sound) :
    parse (items.foldl put []) = items.map read ++ [.error .closed] := by
  induction items with
  | nil => exact parse_of_end rfl
  | cons i items ih =>
    obtain ⟨header, p, hsize, hput, hread⟩ := (hsound i List.mem_cons_self).exists_frame
    have hrest : ∀ j ∈ items, j.Sound := fun j hj => hsound j (List.mem_cons_of_mem _ hj)
    have hone := parseOne_append hsize (items.foldl put [])
    have hframe : isEnd (parseOne (header.encode ++ p ++ items.foldl put [])).1 = false := by
      rw [hone]
      exact isEnd_decodePayload _ _
    have hlength : (header.encode ++ p).length = headerLength + p.length := by simp
    rw [List.foldl_cons, foldl_put items hrest, hput, List.nil_append, parse_of_frame hframe, hone,
      List.drop_left' hlength, ih hrest, hread, List.map_cons, List.cons_append]

end Item

/-- Written messages are items without foreign frames. -/
theorem writeAll_snd (ms : List Message) :
    (writeAll ms).2 = (ms.map Item.message).foldl Item.put [] := by
  rw [List.foldl_map, writeAll]
  exact (List.foldl_hom Prod.snd fun _ _ => rfl).symm

/-- Messages that were written are read back, but for the spelling of their addresses. -/
theorem readAll_writeAll {s : Stream} {ms : List Message}
    (hsound : ∀ m ∈ ms, (Item.message m).Sound) (hs : s.flatten = (writeAll ms).2) :
    readAll s = ms.map (fun m => .ok m.canonical) ++ [.error .closed] := by
  have hitems : ∀ i ∈ ms.map Item.message, i.Sound := by
    intro i hi
    obtain ⟨m, hm, rfl⟩ := List.mem_map.1 hi
    exact hsound m hm
  rw [readAll_eq, hs, writeAll_snd, Item.parse_foldl_put _ hitems, List.map_map]
  rfl

/-- Calls on a stream give the results of the reference parser on the joined bytes and take the
bytes that it takes, however these are cut into chunks, up to a close or a truncation, which comes
after at most a quarter as many calls as there are bytes. A truncation counts exactly the bytes
left, so that the subtraction in it never falls below zero. Written messages whose frames are
read, with foreign frames between them, are read back in order, as they are up to their
addresses' canonical form. -/
theorem framing (s : Stream) :
    ((readMessage s).1 = (parseOne s.flatten).1 ∧
      (readMessage s).2.flatten = s.flatten.drop (parseOne s.flatten).2) ∧
    readAll s = parse s.flatten ∧
    (∃ results last, readAll s = results ++ [last] ∧ isEnd last = true ∧
      (∀ r ∈ results, isEnd r = false) ∧ headerLength * results.length ≤ s.flatten.length) ∧
    (∀ expected actual, (readMessage s).1 = .error (.truncated expected actual) →
      0 < actual ∧ actual < expected ∧ actual = s.flatten.length) ∧
    ∀ items : List Item, (∀ i ∈ items, i.Sound) → s.flatten = items.foldl Item.put [] →
      readAll s = items.map Item.read ++ [.error .closed] := by
  obtain ⟨hresult, hrest⟩ := readMessage_eq s
  refine ⟨⟨hresult, hrest⟩, readAll_eq s, ?_, ?_, ?_⟩
  · rw [readAll_eq]
    exact exists_parse s.flatten
  · intro expected actual h
    exact actual_of_truncated (hresult ▸ h)
  · intro items hsound hwritten
    rw [readAll_eq, hwritten]
    exact Item.parse_foldl_put items hsound

end Stream

end OnionTunnel
