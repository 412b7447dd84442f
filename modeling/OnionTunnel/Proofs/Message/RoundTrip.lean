import OnionTunnel.Proofs.Message.Layout

/-!
# What is written is read back

A message is written when its payload fits a frame, its layers fit a byte and its blocks pair up.
The frame announces its own length and the code of its kind, and is read as the message with
canonical addresses. Two messages are written but not read: handshakes without sealed blocks.
-/

namespace OnionTunnel

/-! ### Headers -/

namespace Header

theorem forPayload_ok {k : Kind} {n : Nat} {h : Header} :
    forPayload k n = .ok h ↔ n ≤ maxPayload ∧ h = ⟨UInt16.ofNat (headerLength + n), k.code⟩ := by
  have hfit : n ≤ maxPayload ↔ ¬ maxFrame < headerLength + n := by
    simp only [maxPayload, maxFrame, headerLength]
    omega
  unfold forPayload
  by_cases hlong : maxFrame < headerLength + n <;> simp [hfit, hlong, eq_comm]

@[simp] theorem length_encode (h : Header) : h.encode.length = headerLength := by
  simp [encode, headerLength]

theorem read_append {size code : Bytes} (hs : size.length = 2) (hc : code.length = 2)
    (rest : Bytes) :
    read (size ++ (code ++ rest)) =
      if size.toNat < headerLength then
        some (.error (.invalidSize (UInt16.ofNat size.toNat)))
      else
        some (.ok (⟨UInt16.ofNat size.toNat, UInt16.ofNat code.toNat⟩, rest)) := by
  have hlt := Bytes.toNat_lt size
  rw [hs] at hlt
  rw [read, Reader.bind_of_ok (Reader.word16_append hs),
    Reader.bind_of_ok (Reader.word16_append hc),
    UInt16.toNat_ofNat_of_lt' (by simpa using hlt)]
  split <;> rfl

/-- A written header is read back, whatever follows it. -/
theorem decode_encode {h : Header} (hsize : headerLength ≤ h.size.toNat) (rest : Bytes) :
    decode (h.encode ++ rest) = .ok h := by
  have hlen : ¬ (h.encode ++ rest).length < headerLength := by simp
  rw [decode, if_neg hlen, encode, List.append_assoc,
    read_append (Bytes.length_ofNat 2 _) (Bytes.length_ofNat 2 _), Bytes.ofNat_word16,
    Bytes.ofNat_word16, Bytes.toNat_ofNat (by simpa using h.size.toNat_lt), if_neg (by omega)]

end Header

namespace Message

/-! ### Fields -/

@[simp] theorem length_reserved : reserved.length = 2 := rfl

@[simp] theorem length_word16Bytes (n : UInt16) : (word16Bytes n).length = 2 :=
  Bytes.length_ofNat 2 _

@[simp] theorem length_word32Bytes (n : UInt32) : (word32Bytes n).length = 4 :=
  Bytes.length_ofNat 4 _

@[simp] theorem length_portBytes (a : Address) : (portBytes a).length = 2 :=
  Bytes.length_ofNat 2 _

@[simp] theorem length_hostBytes (a : Address) : (hostBytes a).length = 16 :=
  Bytes.length_ofNat 16 _

@[simp] theorem toNat_word16Bytes (n : UInt16) : UInt16.ofNat (word16Bytes n).toNat = n :=
  Bytes.ofNat_word16 n

@[simp] theorem toNat_word32Bytes (n : UInt32) : UInt32.ofNat (word32Bytes n).toNat = n :=
  Bytes.ofNat_word32 n

/-- What was written about an address is read as its canonical form. -/
theorem ofWire_bytes (a : Address) :
    Address.ofWire (hostBytes a).toNat (UInt16.ofNat (portBytes a).toNat) = a.canonical := by
  have hlt : a.wireHost < 256 ^ 16 := by simpa using a.wireHost_lt
  rw [hostBytes, portBytes, Bytes.ofNat_word16, Bytes.toNat_ofNat hlt, Address.canonical]

/-! ### Writing -/

theorem length_word32s (ws : List UInt32) : (ws.flatMap word32Bytes).length = 4 * ws.length := by
  induction ws with
  | nil => rfl
  | cons w ws ih =>
      rw [List.flatMap_cons, List.length_append, ih, List.length_cons, length_word32Bytes]
      omega

theorem layerPayload_ok {r : UInt16} {ss : List UInt32} {b p : Bytes} :
    layerPayload r ss b = .ok p ↔ ss.length ≤ 255 ∧
      [UInt8.ofNat ss.length] ++ ([0] ++ (word16Bytes r ++ (ss.flatMap word32Bytes ++ b))) = p := by
  unfold layerPayload
  split
  · simp
    omega
  · simp
    omega

/-- A payload that is written has its kind's length. -/
theorem length_payload {m : Message} {p : Bytes} (h : m.payload = .ok p) :
    p.length = m.payloadLength := by
  cases m with
  | layerEncrypt | layerDecrypt =>
    obtain ⟨-, rfl⟩ := layerPayload_ok.1 h
    simp only [payloadLength, List.length_append, List.length_singleton, length_word16Bytes,
      length_word32s]
    omega
  | incomingHandshake1 | handshake1 =>
    simp only [payload] at h
    split at h
    · cases h
    · obtain rfl := Except.ok.inj h
      simp [payloadLength] <;> omega
  | _ =>
    obtain rfl := Except.ok.inj h
    simp [payloadLength] <;> omega

/-- A payload is written when its layers fit a byte and its blocks pair up, and the hostkey in it
fits a frame. -/
theorem exists_payload {m : Message} (hfit : m.payloadLength ≤ maxPayload) :
    (∃ p, m.payload = .ok p) ↔ m.listed.length ≤ 255 ∧ m.Paired := by
  cases m with
  | layerEncrypt | layerDecrypt =>
    simp only [payload, layerPayload_ok, listed, Paired, and_true]
    exact exists_and_left.trans (and_iff_left ⟨_, rfl⟩)
  | incomingHandshake1 k h =>
    simp only [payloadLength, maxPayload, maxFrame, headerLength] at hfit
    have hk : ¬ 65535 < k.length := by omega
    simp [payload, listed, Paired, hk]
  | handshake1 key mac => by_cases h : key.length = mac.length <;> simp [payload, listed, Paired, h]
  | _ => simp [payload, listed, Paired]

/-- Writing a message is writing its payload behind a header. -/
theorem encode_ok {m : Message} {f : Bytes} :
    m.encode = .ok f ↔ ∃ p, m.payload = .ok p ∧ p.length ≤ maxPayload ∧
      f = Header.encode ⟨UInt16.ofNat (headerLength + p.length), m.kind.code⟩ ++ p := by
  unfold encode
  cases hp : m.payload with
  | error e => simp [bind, Except.bind]
  | ok p =>
    cases hh : Header.forPayload m.kind p.length with
    | error e =>
      have hlong : ¬ p.length ≤ maxPayload := fun hle => by
        rw [Header.forPayload_ok.2 ⟨hle, rfl⟩] at hh
        cases hh
      simp [bind, Except.bind, hh, hlong]
    | ok h =>
      obtain ⟨hle, rfl⟩ := Header.forPayload_ok.1 hh
      simp [bind, Except.bind, pure, Except.pure, hh, hle, eq_comm]

/-! ### Reading what was written -/

theorem readAddress_bytes (a : Address) (rest : Bytes) :
    readAddress (reserved ++ (portBytes a ++ (hostBytes a ++ rest))) =
      some (.ok (a.canonical, rest)) := by
  rw [readAddress_append length_reserved (length_portBytes a) (length_hostBytes a), ofWire_bytes]

theorem readTagged_bytes (make : UInt32 → Bytes → Message) (id : UInt32) (rest : Bytes) :
    readTagged make (word32Bytes id ++ rest) = some (.ok (make id rest, [])) := by
  rw [readTagged_append make (length_word32Bytes id), toNat_word32Bytes]

theorem readId_bytes (make : UInt32 → Message) (id : UInt32) :
    readId make (word32Bytes id) = some (.ok (make id, [])) := by
  rw [readId_of_length make (length_word32Bytes id), toNat_word32Bytes]

theorem readLayered_bytes (make : UInt16 → Bytes → Message) (request : UInt16) (rest : Bytes) :
    readLayered make (word16Bytes request ++ (reserved ++ rest)) =
      some (.ok (make request rest, [])) := by
  rw [readLayered_append make (length_word16Bytes request) length_reserved, toNat_word16Bytes]

theorem readLayers_bytes (make : UInt16 → List UInt32 → Bytes → Message) (request : UInt16)
    {ss : List UInt32} (h : ss.length ≤ 255) (rest : Bytes) :
    readLayers make ([UInt8.ofNat ss.length] ++
      ([0] ++ (word16Bytes request ++ (ss.flatMap word32Bytes ++ rest)))) =
        some (.ok (make request ss rest, [])) := by
  have hcount : Bytes.toNat [UInt8.ofNat ss.length] = ss.length := by
    rw [Bytes.toNat_cons, UInt8.toNat_ofNat_of_lt' (Nat.lt_succ_of_le h)]
    simp
  rw [readLayers_append make rfl rfl (length_word16Bytes request), hcount,
    if_neg (by rw [List.length_append, length_word32s]; omega), toNat_word16Bytes]
  refine (Reader.bind_of_ok (Reader.words32_append ss rest)).trans ?_
  rw [Reader.bind_of_ok (Reader.rest_apply _)]
  rfl

theorem readIncoming_bytes {hostkey : Bytes} (h : hostkey.length ≤ 65535) (handshake : Bytes) :
    readPayload .incomingHandshake1
      (reserved ++ (Bytes.ofNat 2 hostkey.length ++ (hostkey ++ handshake))) =
        some (.ok (.incomingHandshake1 hostkey handshake, [])) := by
  rw [readIncoming_append rfl (Bytes.length_ofNat 2 _), Bytes.toNat_ofNat (by simp; omega),
    if_neg (by simp), Reader.bind_of_ok (Reader.bytes_append rfl),
    Reader.bind_of_ok (Reader.rest_apply _)]
  rfl

theorem readPair_bytes {key mac : Bytes} (h : key.length = mac.length) (hne : key ≠ []) :
    readPayload .handshake1 (key ++ mac) = some (.ok (.handshake1 key mac, [])) := by
  have hpos : 0 < key.length := List.length_pos_iff.2 hne
  have hlen : (key ++ mac).length = 2 * key.length := by
    rw [List.length_append]
    omega
  rw [readPayload, Reader.bind_of_ok (atLeast_of_le (by omega)),
    Reader.bind_of_ok (Reader.remaining_apply _), hlen, if_neg (by omega),
    Reader.bind_of_ok (Reader.bytes_append (by omega)), Reader.bind_of_ok (Reader.rest_apply _)]
  rfl

/-- A payload that was written is read as the message with canonical addresses. -/
theorem readPayload_payload {m : Message} {p : Bytes} (h : m.payload = .ok p) (hb : ¬ m.Blank) :
    ∃ rest, readPayload m.kind p = some (.ok (m.canonical, rest)) := by
  cases m with
  | rpsQuery | sessionConfirmed | sessionDeclined =>
    obtain rfl := Except.ok.inj h
    exact ⟨[], rfl⟩
  | sessionStart k =>
    obtain rfl := Except.ok.inj h
    exact ⟨[], rfl⟩
  | rpsPeer a k =>
    obtain rfl := Except.ok.inj h
    refine ⟨[], ?_⟩
    rw [kind, readPayload, Reader.bind_of_ok (atLeast_of_le (by simp; omega)), List.append_assoc,
      List.append_assoc, Reader.bind_of_ok (Reader.word16_append (length_portBytes a)),
      Reader.bind_of_ok (Reader.word16_append length_reserved), readHost,
      Reader.bind_of_ok (Reader.number_append (length_hostBytes a)),
      Reader.bind_of_ok (Reader.rest_apply _), ofWire_bytes]
    rfl
  | tunnelBuild a k | tunnelExtend a k =>
    obtain rfl := Except.ok.inj h
    refine ⟨[], ?_⟩
    rw [List.append_assoc, List.append_assoc]
    exact (Reader.bind_of_ok (readAddress_bytes a k)).trans
      (Reader.bind_of_ok (Reader.rest_apply _))
  | tunnelReady t b | tunnelIncoming t b | tunnelData t b | sessionHandshake1 t b
  | sessionHandshake2 t b | incomingHandshake2 t b =>
    obtain rfl := Except.ok.inj h
    exact ⟨[], readTagged_bytes _ t b⟩
  | tunnelDestroy t | sessionClose t =>
    obtain rfl := Except.ok.inj h
    exact ⟨[], readId_bytes _ t⟩
  | tunnelError r t =>
    obtain rfl := Except.ok.inj h
    refine ⟨[], ?_⟩
    rw [kind, readPayload, Reader.bind_of_ok (exactly_of_eq (by simp)), List.append_assoc,
      Reader.bind_of_ok (Reader.word16_append (length_word16Bytes r)), toNat_word16Bytes,
      Reader.bind_of_ok (Reader.word16_append length_reserved),
      Reader.bind_of_ok (Reader.word32_of_length (length_word32Bytes t)), toNat_word32Bytes]
    rfl
  | cover n =>
    obtain rfl := Except.ok.inj h
    refine ⟨reserved, ?_⟩
    rw [kind, readPayload, Reader.bind_of_ok (exactly_of_eq (by simp)),
      Reader.bind_of_ok (Reader.word16_append (length_word16Bytes n)), toNat_word16Bytes]
    rfl
  | layerEncrypted r b | layerDecrypted r b =>
    obtain rfl := Except.ok.inj h
    rw [List.append_assoc]
    exact ⟨[], readLayered_bytes _ r b⟩
  | layerEncrypt r ss b | layerDecrypt r ss b =>
    obtain ⟨hlist, rfl⟩ := layerPayload_ok.1 h
    exact ⟨[], readLayers_bytes _ r hlist b⟩
  | incomingHandshake1 k b =>
    simp only [payload] at h
    split at h
    · cases h
    · obtain rfl := Except.ok.inj h
      rw [List.append_assoc, List.append_assoc]
      exact ⟨[], readIncoming_bytes (by omega) b⟩
  | handshake1 key mac =>
    simp only [payload] at h
    split at h
    · cases h
    · next heq =>
      obtain rfl := Except.ok.inj h
      have hlen : key.length = mac.length := Decidable.not_not.1 heq
      refine ⟨[], readPair_bytes hlen fun hnil => hb (.inl ?_)⟩
      subst hnil
      rw [List.eq_nil_of_length_eq_zero hlen.symm]
  | handshake2 mac =>
    obtain rfl := Except.ok.inj h
    have hpos : 1 ≤ mac.length :=
      List.length_pos_iff.2 fun hnil => hb (.inr (by rw [hnil]))
    refine ⟨[], ?_⟩
    rw [kind, readPayload, Reader.bind_of_ok (atLeast_of_le hpos),
      Reader.bind_of_ok (Reader.rest_apply _)]
    rfl

/-! ### Frames -/

/-- A header that announces the payload behind it leads to the payload's own reading. -/
theorem decode_header_append {h : Header} {p : Bytes}
    (hsize : h.size.toNat = headerLength + p.length) :
    decode (h.encode ++ p) = decodePayload h.code p := by
  have hlen : (h.encode ++ p).length = h.size.toNat := by
    rw [List.length_append, Header.length_encode, hsize]
  simp only [decode, Header.decode_encode (h := h) (by omega) p, bind, Except.bind]
  rw [if_neg (by omega), if_neg (by omega), List.drop_left' h.length_encode]

/-- The header of a payload that fits announces it. -/
theorem size_toNat {n : Nat} (h : n ≤ maxPayload) :
    (UInt16.ofNat (headerLength + n)).toNat = headerLength + n := by
  apply UInt16.toNat_ofNat_of_lt'
  simp only [maxPayload, maxFrame, headerLength] at h ⊢
  show _ < 65536
  omega

/-- A frame is read as its payload is. -/
theorem decode_of_encode {m : Message} {f : Bytes} (h : m.encode = .ok f) :
    ∃ p, m.payload = .ok p ∧ decode f = decodePayload m.kind.code p := by
  obtain ⟨p, hp, hle, rfl⟩ := encode_ok.1 h
  exact ⟨p, hp, decode_header_append (size_toNat hle)⟩

theorem decodePayload_of_ok {k : Kind} {p rest : Bytes} {m : Message}
    (h : readPayload k p = some (.ok (m, rest))) : decodePayload k.code p = .ok m := by
  rw [decodePayload, Kind.ofCode?_code]
  simp only [h]

theorem decodePayload_of_error {k : Kind} {p : Bytes} {e : FrameError}
    (h : readPayload k p = some (.error e)) : decodePayload k.code p = .error e := by
  rw [decodePayload, Kind.ofCode?_code]
  simp only [h]

/-- A frame is read as the message with canonical addresses. -/
theorem decode_canonical {m : Message} {f : Bytes} (h : m.encode = .ok f) (hb : ¬ m.Blank) :
    decode f = .ok m.canonical := by
  obtain ⟨p, hp, hdecode⟩ := decode_of_encode h
  obtain ⟨rest, hread⟩ := readPayload_payload hp hb
  rw [hdecode, decodePayload_of_ok hread]

/-- A message whose payload fits a frame, whose layers fit a byte and whose blocks pair up is
written. -/
theorem exists_encode {m : Message} (hfit : m.payloadLength ≤ maxPayload)
    (hlisted : m.listed.length ≤ 255) (hpaired : m.Paired) : ∃ f, m.encode = .ok f := by
  obtain ⟨p, hp⟩ := (exists_payload hfit).2 ⟨hlisted, hpaired⟩
  exact ⟨_, encode_ok.2 ⟨p, hp, by rwa [length_payload hp], rfl⟩⟩

/-- Only such messages are written. -/
theorem fits_of_encode {m : Message} {f : Bytes} (h : m.encode = .ok f) :
    m.payloadLength ≤ maxPayload ∧ m.listed.length ≤ 255 ∧ m.Paired := by
  obtain ⟨p, hp, hle, -⟩ := encode_ok.1 h
  rw [length_payload hp] at hle
  exact ⟨hle, (exists_payload hle).1 ⟨p, hp⟩⟩

theorem length_of_encode {m : Message} {f : Bytes} (h : m.encode = .ok f) :
    f.length = headerLength + m.payloadLength := by
  obtain ⟨p, hp, -, rfl⟩ := encode_ok.1 h
  rw [List.length_append, Header.length_encode, length_payload hp]

/-- A message that gets to the other side gets there with canonical addresses. -/
theorem transmit_ok {m m' : Message} (h : m.transmit = .ok m') : m' = m.canonical := by
  unfold transmit at h
  cases hf : m.encode with
  | error e => simp [hf, bind, Except.bind] at h
  | ok f =>
    simp only [hf, bind, Except.bind] at h
    by_cases hb : m.Blank
    · obtain ⟨p, hp, hdecode⟩ := decode_of_encode hf
      rw [hdecode] at h
      rcases hb with rfl | rfl <;> obtain rfl := Except.ok.inj hp <;> cases h
    · rw [decode_canonical hf hb] at h
      exact (Except.ok.inj h).symm

/-- A message does not get to the other side, or gets there with canonical addresses. -/
theorem transmit_cases (m : Message) :
    (∃ e, m.transmit = .error e) ∨ m.transmit = .ok m.canonical := by
  cases h : m.transmit with
  | error e => exact .inl ⟨e, rfl⟩
  | ok m' => exact .inr (congrArg Except.ok (transmit_ok h))

theorem encode_of_transmit {m m' : Message} (h : m.transmit = .ok m') : ∃ f, m.encode = .ok f := by
  unfold transmit at h
  cases hf : m.encode with
  | error e => simp [hf, bind, Except.bind] at h
  | ok f => exact ⟨f, rfl⟩

/-- A message that is written gets to the other side, unless it is a handshake without sealed
blocks. -/
theorem transmit_of_fits {m : Message} (hfit : m.payloadLength ≤ maxPayload)
    (hlisted : m.listed.length ≤ 255) (hpaired : m.Paired) (hb : ¬ m.Blank) :
    m.transmit = .ok m.canonical := by
  obtain ⟨f, hf⟩ := exists_encode hfit hlisted hpaired
  rw [transmit, hf]
  exact decode_canonical hf hb

theorem transmit_of_unfit {m : Message}
    (h : ¬ (m.payloadLength ≤ maxPayload ∧ m.listed.length ≤ 255 ∧ m.Paired)) :
    ∃ e, m.transmit = .error e := by
  obtain he | hm := transmit_cases m
  · exact he
  · obtain ⟨f, hf⟩ := encode_of_transmit hm
    exact (h (fits_of_encode hf)).elim

/-- The messages without layers and without blocks, which are written whenever they fit. -/
def isPlain : Message → Bool
  | layerEncrypt .. | layerDecrypt .. | handshake1 .. | handshake2 .. => false
  | _ => true

theorem transmit_of_plain {m : Message} (hplain : m.isPlain = true)
    (hfit : m.payloadLength ≤ maxPayload) : m.transmit = .ok m.canonical := by
  have hparts : m.listed.length ≤ 255 ∧ m.Paired ∧ ¬ m.Blank := by
    cases m <;> simp [isPlain, listed, Paired, Blank] at hplain ⊢
  exact transmit_of_fits hfit hparts.1 hparts.2.1 hparts.2.2

/-- A message is written exactly when its payload fits a frame, its layers fit a byte and its
blocks pair up. The frame begins with its length and its kind's code, and is read as the message
with canonical addresses, but for handshakes without sealed blocks. A mapped host is canonically a
32-bit host; otherwise only the flow label and the scope of a host are not canonical. -/
theorem encode_exact (m : Message) :
    ((∃ f, m.encode = .ok f) ↔
      m.payloadLength ≤ maxPayload ∧ m.listed.length ≤ 255 ∧ m.Paired) ∧
    (∀ f, m.encode = .ok f →
      f.length = headerLength + m.payloadLength ∧
      f.take headerLength = Bytes.ofNat 2 f.length ++ Bytes.ofNat 2 m.kind.code.toNat ∧
      decode f =
        if m = .handshake1 [] [] then .error (.tooShort 0 2)
        else if m = .handshake2 [] then .error (.tooShort 0 1)
        else .ok m.canonical) ∧
    (∀ h p, (Address.v4 h p).canonical = .v4 h p) ∧
    ∀ h p flow scope, (Address.v6 h p flow scope).canonical =
      if h.toNat / 0x100000000 = 0xffff then .v4 (h.setWidth 32) p else .v6 h p 0 0 := by
  refine ⟨⟨?_, ?_⟩, ?_, Address.canonical_v4, Address.canonical_v6⟩
  · rintro ⟨f, hf⟩
    exact fits_of_encode hf
  · rintro ⟨hfit, hlisted, hpaired⟩
    exact exists_encode hfit hlisted hpaired
  · intro f hf
    have hlen := length_of_encode hf
    refine ⟨hlen, ?_, ?_⟩
    · obtain ⟨p, hp, hle, hframe⟩ := encode_ok.1 hf
      rw [hlen, ← length_payload hp, hframe, List.take_left' (Header.length_encode _),
        Header.encode, size_toNat hle]
    · obtain ⟨q, hq, hdecode⟩ := decode_of_encode hf
      split
      · next hblank =>
        subst hblank
        obtain rfl := Except.ok.inj hq
        exact hdecode
      · split
        · next hblank =>
          subst hblank
          obtain rfl := Except.ok.inj hq
          exact hdecode
        · next h₁ h₂ => exact decode_canonical hf (not_or.2 ⟨h₁, h₂⟩)

end Message

end OnionTunnel
