import OnionTunnel.Message.Frame
import OnionTunnel.Proofs.Address.Canonical
import OnionTunnel.Proofs.Bytes.Reading

/-!
# Payload layouts

Each kind has one layout. `payloadLength` is its length for a message, `Kind.reserved` are the
places that carry nothing, and `Kind.payloadFault?` says what is wrong with bytes that do not fit
it. The main statements are `readPayload_of_fault` and `readPayload_of_sound`: reading fails with
exactly that fault, and otherwise takes all bytes and gives a message whose payload is those bytes
with the reserved places cleared.
-/

namespace OnionTunnel

/-- The bytes with zeros at the given places. -/
def Bytes.zeroed (places : List Nat) (b : Bytes) : Bytes :=
  b.mapIdx fun i x => if i ∈ places then 0 else x

namespace Bytes

@[simp] theorem length_zeroed (places : List Nat) (b : Bytes) :
    (zeroed places b).length = b.length := by
  simp [zeroed]

@[simp] theorem zeroed_none (b : Bytes) : zeroed [] b = b := by
  simp [zeroed, List.mapIdx_eq_zipIdx_map]

/-- Clearing the bytes that follow a beginning. -/
theorem zeroed_append {places : List Nat} {front cleared rest : Bytes}
    (h : places = List.range' front.length cleared.length) :
    zeroed places (front ++ (cleared ++ rest)) =
      front ++ (List.replicate cleared.length 0 ++ rest) := by
  subst h
  apply List.ext_getElem
  · simp [zeroed]
  · intro i h₁ h₂
    simp only [zeroed, List.getElem_mapIdx, List.mem_range'_1, List.getElem_append,
      List.length_replicate, List.getElem_replicate]
    split
    · split <;> first | omega | (split <;> first | rfl | omega)
    · split
      · rfl
      · split <;> first | rfl | omega

/-- Clearing does not reach bytes in front of the places. -/
theorem take_zeroed {places : List Nat} {n : Nat} (h : ∀ i ∈ places, n ≤ i) (b : Bytes) :
    (zeroed places b).take n = b.take n := by
  apply List.ext_getElem
  · simp
  · intro i h₁ h₂
    simp only [zeroed, List.getElem_take, List.getElem_mapIdx]
    split
    · next hi =>
      have := h i hi
      simp only [List.length_take] at h₂
      omega
    · rfl

end Bytes

namespace Kind

/-- The places of a payload that carry nothing. -/
def reserved : Kind → List Nat
  | rpsPeer | tunnelError | cover | layerEncrypted | layerDecrypted => [2, 3]
  | tunnelBuild | tunnelExtend | incomingHandshake1 => [0, 1]
  | layerEncrypt | layerDecrypt => [1]
  | _ => []

/-- What is wrong with a length that has a lower bound. -/
def shortFault? (minimum length : Nat) : Option FrameError :=
  if length < minimum then some (.tooShort length minimum) else none

/-- What is wrong with a length that is fixed. -/
def exactFault? (expected length : Nat) : Option FrameError :=
  if length < expected then some (.tooShort length expected)
  else if expected < length then some (.malformed (.afterPayload (length - expected)))
  else none

/-- What is wrong with a payload of a kind. -/
def payloadFault? (k : Kind) (p : Bytes) : Option FrameError :=
  match k with
  | rpsQuery | sessionConfirmed | sessionDeclined => exactFault? 0 p.length
  | tunnelDestroy | cover | sessionClose => exactFault? 4 p.length
  | tunnelError => exactFault? 8 p.length
  | sessionStart => none
  | handshake2 => shortFault? 1 p.length
  | tunnelReady | tunnelIncoming | tunnelData | sessionHandshake1 | sessionHandshake2
  | incomingHandshake2 | layerEncrypted | layerDecrypted => shortFault? 4 p.length
  | rpsPeer | tunnelBuild | tunnelExtend => shortFault? 20 p.length
  | incomingHandshake1 =>
    (shortFault? 4 p.length).or (shortFault? (4 + Bytes.toNat ((p.drop 2).take 2)) p.length)
  | layerEncrypt | layerDecrypt =>
    (shortFault? 4 p.length).or (shortFault? (4 + Bytes.toNat (p.take 1) * 4) p.length)
  | handshake1 =>
    (shortFault? 2 p.length).or
      (if p.length % 2 ≠ 0 then some (.malformed (.oddBlocks p.length)) else none)

theorem shortFault?_eq_none {minimum length : Nat} :
    shortFault? minimum length = none ↔ minimum ≤ length := by
  unfold shortFault?
  split <;> simp <;> omega

theorem exactFault?_eq_none {expected length : Nat} :
    exactFault? expected length = none ↔ length = expected := by
  unfold exactFault?
  split
  · simp
    omega
  · split <;> simp <;> omega

end Kind

namespace Message

/-- The length of a message's payload. -/
def payloadLength : Message → Nat
  | rpsQuery | sessionConfirmed | sessionDeclined => 0
  | tunnelDestroy _ | cover _ | sessionClose _ => 4
  | tunnelError _ _ => 8
  | sessionStart b | handshake2 b => b.length
  | tunnelReady _ b | tunnelIncoming _ b | tunnelData _ b | sessionHandshake1 _ b
  | sessionHandshake2 _ b | incomingHandshake2 _ b | layerEncrypted _ b | layerDecrypted _ b =>
    4 + b.length
  | rpsPeer _ b | tunnelBuild _ b | tunnelExtend _ b => 20 + b.length
  | incomingHandshake1 k h => 4 + k.length + h.length
  | layerEncrypt _ ss p | layerDecrypt _ ss p => 4 + 4 * ss.length + p.length
  | handshake1 key mac => key.length + mac.length

/-- The sessions that a request for layers lists. -/
def listed : Message → List UInt32
  | layerEncrypt _ ss _ | layerDecrypt _ ss _ => ss
  | _ => []

/-- The two blocks of a first handshake have one length. -/
def Paired : Message → Prop
  | handshake1 key mac => key.length = mac.length
  | _ => True

/-- A handshake without a sealed block. -/
def Blank (m : Message) : Prop := m = handshake1 [] [] ∨ m = handshake2 []

/-! ### Reading parts -/

theorem atLeast_of_le {minimum : Nat} {b : Bytes} (h : minimum ≤ b.length) :
    atLeast minimum b = some (.ok ((), b)) := by
  rw [atLeast, Reader.bind_of_ok (Reader.remaining_apply b), if_neg (by omega)]
  rfl

theorem atLeast_of_lt {minimum : Nat} {b : Bytes} (h : b.length < minimum) :
    atLeast minimum b = some (.error (.tooShort b.length minimum)) := by
  rw [atLeast, Reader.bind_of_ok (Reader.remaining_apply b), if_pos h]
  rfl

theorem exactly_of_eq {expected : Nat} {b : Bytes} (h : b.length = expected) :
    exactly expected b = some (.ok ((), b)) := by
  rw [exactly, Reader.bind_of_ok (atLeast_of_le (by omega)),
    Reader.bind_of_ok (Reader.remaining_apply b), if_neg (by omega)]
  rfl

theorem exactly_of_fault {expected : Nat} {b : Bytes} {e : FrameError}
    (h : Kind.exactFault? expected b.length = some e) :
    exactly expected b = some (.error e) := by
  unfold Kind.exactFault? at h
  split at h
  · next hlt =>
    obtain rfl := Option.some.inj h
    rw [exactly, Reader.bind_of_error (atLeast_of_lt hlt)]
  · split at h
    · next hlt =>
      obtain rfl := Option.some.inj h
      rw [exactly, Reader.bind_of_ok (atLeast_of_le (by omega)),
        Reader.bind_of_ok (Reader.remaining_apply b), if_pos hlt]
      rfl
    · simp at h

theorem atLeast_of_fault {minimum : Nat} {b : Bytes} {e : FrameError}
    (h : Kind.shortFault? minimum b.length = some e) : atLeast minimum b = some (.error e) := by
  unfold Kind.shortFault? at h
  split at h
  · next hlt =>
    obtain rfl := Option.some.inj h
    exact atLeast_of_lt hlt
  · simp at h

/-- The fixed part of a request for layers, and what its number of layers asks for. -/
theorem readLayers_append (make : UInt16 → List UInt32 → Bytes → Message)
    {count unused request rest : Bytes} (hc : count.length = 1) (hu : unused.length = 1)
    (hr : request.length = 2) :
    readLayers make (count ++ (unused ++ (request ++ rest))) =
      if rest.length < Bytes.toNat count * 4 then
        some (.error (.tooShort (4 + rest.length) (4 + Bytes.toNat count * 4)))
      else
        (do
          let sessions ← Reader.words32 (Bytes.toNat count)
          return make (UInt16.ofNat (Bytes.toNat request)) sessions (← Reader.rest)) rest := by
  have hlen : (count ++ (unused ++ (request ++ rest))).length = 4 + rest.length := by
    simp only [List.length_append]
    omega
  rw [readLayers, Reader.bind_of_ok (atLeast_of_le (by omega)),
    Reader.bind_of_ok (Reader.remaining_apply _), Reader.bind_of_ok (Reader.byte_append hc),
    Reader.bind_of_ok (Reader.byte_append hu), Reader.bind_of_ok (Reader.word16_append hr),
    Reader.bind_of_ok (Reader.remaining_apply _), hlen]
  split <;> rfl

/-- The fixed part of a delivered first handshake, and what its length of the hostkey asks for. -/
theorem readIncoming_append {unused length rest : Bytes} (hu : unused.length = 2)
    (hl : length.length = 2) :
    readPayload .incomingHandshake1 (unused ++ (length ++ rest)) =
      if rest.length < Bytes.toNat length then
        some (.error (.tooShort (4 + rest.length) (4 + Bytes.toNat length)))
      else
        (do
          let hostkey ← Reader.bytes (Bytes.toNat length)
          return incomingHandshake1 hostkey (← Reader.rest)) rest := by
  have hlen : (unused ++ (length ++ rest)).length = 4 + rest.length := by
    simp only [List.length_append]
    omega
  rw [readPayload, Reader.bind_of_ok (atLeast_of_le (by omega)),
    Reader.bind_of_ok (Reader.remaining_apply _), Reader.bind_of_ok (Reader.word16_append hu),
    Reader.bind_of_ok (Reader.number_append hl), Reader.bind_of_ok (Reader.remaining_apply _), hlen]
  split <;> rfl

/-! ### Reading payloads that do not fit -/

theorem readLayers_of_fault (make : UInt16 → List UInt32 → Bytes → Message) {p : Bytes}
    {e : FrameError} (h : Kind.layerEncrypt.payloadFault? p = some e) :
    readLayers make p = some (.error e) := by
  simp only [Kind.payloadFault?] at h
  by_cases hp : 4 ≤ p.length
  · rw [Kind.shortFault?_eq_none.2 hp, Option.none_or] at h
    obtain ⟨count, q, rfl, hc⟩ := Bytes.exists_append (b := p) (n := 1) (by omega)
    obtain ⟨unused, q, rfl, hu⟩ := Bytes.exists_append (b := q) (n := 1) (by simp at hp; omega)
    obtain ⟨request, rest, rfl, hr⟩ := Bytes.exists_append (b := q) (n := 2) (by simp at hp; omega)
    rw [List.take_left' hc] at h
    simp only [Kind.shortFault?, List.length_append] at h
    split at h
    · next hlt =>
      rw [readLayers_append make hc hu hr, if_pos (by omega), ← Option.some.inj h]
      congr 3
      omega
    · simp at h
  · have hs : Kind.shortFault? 4 p.length = some (.tooShort p.length 4) := if_pos (by omega)
    rw [hs, Option.some_or] at h
    obtain rfl := Option.some.inj h
    exact Reader.bind_of_error (atLeast_of_lt (by omega))

theorem readIncoming_of_fault {p : Bytes} {e : FrameError}
    (h : Kind.incomingHandshake1.payloadFault? p = some e) :
    readPayload .incomingHandshake1 p = some (.error e) := by
  simp only [Kind.payloadFault?] at h
  by_cases hp : 4 ≤ p.length
  · rw [Kind.shortFault?_eq_none.2 hp, Option.none_or] at h
    obtain ⟨unused, q, rfl, hu⟩ := Bytes.exists_append (b := p) (n := 2) (by omega)
    obtain ⟨length, rest, rfl, hl⟩ := Bytes.exists_append (b := q) (n := 2) (by simp at hp; omega)
    rw [List.drop_left' hu, List.take_left' hl] at h
    simp only [Kind.shortFault?, List.length_append] at h
    split at h
    · next hlt =>
      rw [readIncoming_append hu hl, if_pos (by omega), ← Option.some.inj h]
      congr 3
      omega
    · simp at h
  · have hs : Kind.shortFault? 4 p.length = some (.tooShort p.length 4) := if_pos (by omega)
    rw [hs, Option.some_or] at h
    obtain rfl := Option.some.inj h
    exact Reader.bind_of_error (atLeast_of_lt (by omega))

theorem readPair_of_fault {p : Bytes} {e : FrameError}
    (h : Kind.handshake1.payloadFault? p = some e) :
    readPayload .handshake1 p = some (.error e) := by
  simp only [Kind.payloadFault?] at h
  by_cases hp : 2 ≤ p.length
  · rw [Kind.shortFault?_eq_none.2 hp, Option.none_or] at h
    split at h
    · next hodd =>
      obtain rfl := Option.some.inj h
      rw [readPayload, Reader.bind_of_ok (atLeast_of_le hp),
        Reader.bind_of_ok (Reader.remaining_apply p), if_pos hodd]
      rfl
    · simp at h
  · have hs : Kind.shortFault? 2 p.length = some (.tooShort p.length 2) := if_pos (by omega)
    rw [hs, Option.some_or] at h
    obtain rfl := Option.some.inj h
    exact Reader.bind_of_error (atLeast_of_lt (by omega))

/-- Reading fails with exactly what is wrong with the payload. -/
theorem readPayload_of_fault {k : Kind} {p : Bytes} {e : FrameError}
    (h : k.payloadFault? p = some e) : readPayload k p = some (.error e) := by
  cases k with
  | rpsQuery | sessionConfirmed | sessionDeclined | tunnelDestroy | cover | sessionClose
  | tunnelError =>
    exact Reader.bind_of_error (exactly_of_fault h)
  | rpsPeer | tunnelReady | tunnelIncoming | tunnelData | sessionHandshake1 | sessionHandshake2
  | incomingHandshake2 | layerEncrypted | layerDecrypted | handshake2 =>
    exact Reader.bind_of_error (atLeast_of_fault h)
  | tunnelBuild | tunnelExtend =>
    exact Reader.bind_of_error (Reader.bind_of_error (atLeast_of_fault h))
  | sessionStart => simp [Kind.payloadFault?] at h
  | layerEncrypt => exact readLayers_of_fault layerEncrypt h
  | layerDecrypt => exact readLayers_of_fault layerDecrypt h
  | incomingHandshake1 => exact readIncoming_of_fault h
  | handshake1 => exact readPair_of_fault h

/-! ### Reading payloads that fit -/

/-- The bytes are read as the message, and the message is written as the bytes with the reserved
places cleared. -/
structure Spelled (k : Kind) (p : Bytes) (m : Message) : Prop where
  reads : ∃ rest, readPayload k p = some (.ok (m, rest))
  kind_eq : m.kind = k
  writes : m.payload = .ok (p.zeroed k.reserved)
  canonical_eq : m.canonical = m
  not_blank : ¬ m.Blank

theorem readTagged_append (make : UInt32 → Bytes → Message) {id rest : Bytes}
    (h : id.length = 4) :
    readTagged make (id ++ rest) = some (.ok (make (UInt32.ofNat (Bytes.toNat id)) rest, [])) := by
  rw [readTagged, Reader.bind_of_ok (atLeast_of_le (by simp; omega)),
    Reader.bind_of_ok (Reader.word32_append h), Reader.bind_of_ok (Reader.rest_apply _)]
  rfl

theorem readId_of_length (make : UInt32 → Message) {id : Bytes} (h : id.length = 4) :
    readId make id = some (.ok (make (UInt32.ofNat (Bytes.toNat id)), [])) := by
  rw [readId, Reader.bind_of_ok (exactly_of_eq h), Reader.bind_of_ok (Reader.word32_of_length h)]
  rfl

theorem readLayered_append (make : UInt16 → Bytes → Message) {request unused rest : Bytes}
    (hr : request.length = 2) (hu : unused.length = 2) :
    readLayered make (request ++ (unused ++ rest)) =
      some (.ok (make (UInt16.ofNat (Bytes.toNat request)) rest, [])) := by
  rw [readLayered, Reader.bind_of_ok (atLeast_of_le (by simp; omega)),
    Reader.bind_of_ok (Reader.word16_append hr), Reader.bind_of_ok (Reader.word16_append hu),
    Reader.bind_of_ok (Reader.rest_apply _)]
  rfl

theorem readAddress_append {unused port host rest : Bytes} (hu : unused.length = 2)
    (hp : port.length = 2) (hh : host.length = 16) :
    readAddress (unused ++ (port ++ (host ++ rest))) =
      some (.ok (.ofWire (Bytes.toNat host) (UInt16.ofNat (Bytes.toNat port)), rest)) := by
  rw [readAddress, Reader.bind_of_ok (atLeast_of_le (by simp; omega)),
    Reader.bind_of_ok (Reader.word16_append hu), Reader.bind_of_ok (Reader.word16_append hp),
    readHost, Reader.bind_of_ok (Reader.number_append hh)]
  rfl

/-- A host and a port that were read are written as they stood. -/
theorem addressBytes_ofWire {port host : Bytes} (hp : port.length = 2) (hh : host.length = 16) :
    let a := Address.ofWire (Bytes.toNat host) (UInt16.ofNat (Bytes.toNat port))
    portBytes a = port ∧ hostBytes a = host ∧ a.canonical = a := by
  have hlt := Bytes.toNat_lt host
  rw [hh] at hlt
  refine ⟨?_, ?_, Address.canonical_ofWire hlt _⟩
  · rw [portBytes, Address.port_ofWire, Bytes.word16_toNat hp]
  · rw [hostBytes, Address.wireHost_ofWire hlt, Bytes.ofNat_toNat_of_length hh]

/-- The layout that an address begins: two reserved bytes, the port, the host. -/
theorem spelled_routed {k : Kind} (make : Address → Bytes → Message)
    (hread : readPayload k = do
      let a ← readAddress
      return make a (← Reader.rest))
    (hkind : ∀ a b, (make a b).kind = k) (hreserved : k.reserved = [0, 1])
    (hpayload : ∀ a b, (make a b).payload = .ok (reserved ++ portBytes a ++ hostBytes a ++ b))
    (hcanonical : ∀ a b, (make a b).canonical = make a.canonical b)
    (hblank : ∀ a b, ¬ (make a b).Blank) {p : Bytes} (h : 20 ≤ p.length) :
    ∃ m, Spelled k p m := by
  obtain ⟨unused, q, rfl, hu⟩ := Bytes.exists_append (b := p) (n := 2) (by omega)
  obtain ⟨port, q, rfl, hp⟩ := Bytes.exists_append (b := q) (n := 2) (by simp at h; omega)
  obtain ⟨host, rest, rfl, hh⟩ := Bytes.exists_append (b := q) (n := 16) (by simp at h; omega)
  obtain ⟨hportBytes, hhostBytes, hcanon⟩ := addressBytes_ofWire hp hh
  refine ⟨make _ rest, ⟨[], ?_⟩, hkind _ _, ?_, by rw [hcanonical, hcanon], hblank _ _⟩
  · rw [hread, Reader.bind_of_ok (readAddress_append hu hp hh),
      Reader.bind_of_ok (Reader.rest_apply _)]
    rfl
  · have hz : Bytes.zeroed [0, 1] ([] ++ (unused ++ (port ++ (host ++ rest)))) = _ :=
      Bytes.zeroed_append (by rw [hu]; rfl)
    rw [hpayload, hportBytes, hhostBytes, hreserved]
    simpa [reserved, hu] using hz.symm

/-- The layout of an answer to a request for layers: a number, two reserved bytes, the payload. -/
theorem spelled_layered {k : Kind} (make : UInt16 → Bytes → Message)
    (hread : readPayload k = readLayered make) (hkind : ∀ r b, (make r b).kind = k)
    (hreserved : k.reserved = [2, 3])
    (hpayload : ∀ r b, (make r b).payload = .ok (word16Bytes r ++ reserved ++ b))
    (hcanonical : ∀ r b, (make r b).canonical = make r b)
    (hblank : ∀ r b, ¬ (make r b).Blank) {p : Bytes} (h : 4 ≤ p.length) :
    ∃ m, Spelled k p m := by
  obtain ⟨request, q, rfl, hr⟩ := Bytes.exists_append (b := p) (n := 2) (by omega)
  obtain ⟨unused, rest, rfl, hu⟩ := Bytes.exists_append (b := q) (n := 2) (by simp at h; omega)
  refine ⟨make _ rest, ⟨[], by rw [hread, readLayered_append make hr hu]⟩, hkind _ _, ?_,
    hcanonical _ _, hblank _ _⟩
  have hz : Bytes.zeroed [2, 3] (request ++ (unused ++ rest)) = _ :=
    Bytes.zeroed_append (by rw [hr, hu]; rfl)
  rw [hpayload, hreserved, word16Bytes, Bytes.word16_toNat hr]
  simpa [reserved, hu] using hz.symm

/-- The layout of an id and the bytes after it. -/
theorem spelled_tagged {k : Kind} (make : UInt32 → Bytes → Message)
    (hread : readPayload k = readTagged make) (hkind : ∀ i b, (make i b).kind = k)
    (hreserved : k.reserved = [])
    (hpayload : ∀ i b, (make i b).payload = .ok (word32Bytes i ++ b))
    (hcanonical : ∀ i b, (make i b).canonical = make i b)
    (hblank : ∀ i b, ¬ (make i b).Blank) {p : Bytes} (h : 4 ≤ p.length) :
    ∃ m, Spelled k p m := by
  obtain ⟨id, rest, rfl, hid⟩ := Bytes.exists_append (b := p) (n := 4) h
  refine ⟨make _ rest, ⟨[], by rw [hread, readTagged_append make hid]⟩, hkind _ _, ?_,
    hcanonical _ _, hblank _ _⟩
  rw [hpayload, hreserved, Bytes.zeroed_none, word32Bytes, Bytes.word32_toNat hid]

/-- The layout of an id that stands alone. -/
theorem spelled_id {k : Kind} (make : UInt32 → Message)
    (hread : readPayload k = readId make) (hkind : ∀ i, (make i).kind = k)
    (hreserved : k.reserved = []) (hpayload : ∀ i, (make i).payload = .ok (word32Bytes i))
    (hcanonical : ∀ i, (make i).canonical = make i) (hblank : ∀ i, ¬ (make i).Blank) {p : Bytes}
    (h : p.length = 4) : ∃ m, Spelled k p m := by
  refine ⟨make _, ⟨[], by rw [hread, readId_of_length make h]⟩, hkind _, ?_, hcanonical _, hblank _⟩
  rw [hpayload, hreserved, Bytes.zeroed_none, word32Bytes, Bytes.word32_toNat h]

/-- The layout of a request for layers: their number, a reserved byte, a number, the ids, the
payload. -/
theorem spelled_layers {k : Kind} (make : UInt16 → List UInt32 → Bytes → Message)
    (hread : readPayload k = readLayers make) (hkind : ∀ r ss b, (make r ss b).kind = k)
    (hreserved : k.reserved = [1])
    (hpayload : ∀ r ss b, (make r ss b).payload = layerPayload r ss b)
    (hcanonical : ∀ r ss b, (make r ss b).canonical = make r ss b)
    (hblank : ∀ r ss b, ¬ (make r ss b).Blank) {p : Bytes} (h : 4 ≤ p.length)
    (hlayers : 4 + Bytes.toNat (p.take 1) * 4 ≤ p.length) : ∃ m, Spelled k p m := by
  obtain ⟨count, q, rfl, hc⟩ := Bytes.exists_append (b := p) (n := 1) (by omega)
  obtain ⟨unused, q, rfl, hu⟩ := Bytes.exists_append (b := q) (n := 1) (by simp at h; omega)
  obtain ⟨request, q, rfl, hr⟩ := Bytes.exists_append (b := q) (n := 2) (by simp at h; omega)
  rw [List.take_left' hc] at hlayers
  simp only [List.length_append] at hlayers
  obtain ⟨ids, rest, rfl, hids⟩ :=
    Bytes.exists_append (b := q) (n := Bytes.toNat count * 4) (by omega)
  obtain ⟨ss, hss, rfl⟩ := Reader.exists_words32 (Bytes.toNat count) hids
  have hcount := Bytes.toNat_lt count
  rw [hc] at hcount
  refine ⟨make (UInt16.ofNat (Bytes.toNat request)) ss rest, ⟨[], ?_⟩, hkind _ _ _, ?_,
    hcanonical _ _ _, hblank _ _ _⟩
  · rw [hread, readLayers_append make hc hu hr, if_neg (by simp only [List.length_append]; omega),
      ← hss, Reader.bind_of_ok (Reader.words32_append ss rest),
      Reader.bind_of_ok (Reader.rest_apply _)]
    rfl
  · have hcountBytes : [UInt8.ofNat ss.length] = count := by
      rw [hss]
      simpa [Bytes.ofNat] using Bytes.ofNat_toNat_of_length hc
    have hz : Bytes.zeroed [1]
        (count ++ (unused ++ (request ++ (ss.flatMap word32Bytes ++ rest)))) = _ :=
      Bytes.zeroed_append (by rw [hc, hu]; rfl)
    rw [hpayload, layerPayload, if_neg (by omega), hreserved, word16Bytes, Bytes.word16_toNat hr]
    refine congrArg Except.ok (Eq.trans ?_ hz.symm)
    rw [hu, ← hcountBytes]
    simp

/-- The layout of messages that carry nothing. -/
theorem spelled_empty {k : Kind} (m : Message)
    (hread : readPayload k = do exactly 0; return m) (hkind : m.kind = k)
    (hreserved : k.reserved = []) (hpayload : m.payload = .ok []) (hcanonical : m.canonical = m)
    (hblank : ¬ m.Blank) {p : Bytes} (h : p.length = 0) : ∃ m, Spelled k p m := by
  obtain rfl := List.eq_nil_of_length_eq_zero h
  have hz : (exactly 0) [] = some (.ok ((), [])) := exactly_of_eq (b := []) rfl
  refine ⟨m, ⟨[], ?_⟩, hkind, by rw [hpayload, hreserved, Bytes.zeroed_none], hcanonical, hblank⟩
  rw [hread, Reader.bind_of_ok hz]
  rfl

theorem spelled_peer {p : Bytes} (h : 20 ≤ p.length) : ∃ m, Spelled .rpsPeer p m := by
  obtain ⟨port, q, rfl, hp⟩ := Bytes.exists_append (b := p) (n := 2) (by omega)
  obtain ⟨unused, q, rfl, hu⟩ := Bytes.exists_append (b := q) (n := 2) (by simp at h; omega)
  obtain ⟨host, rest, rfl, hh⟩ := Bytes.exists_append (b := q) (n := 16) (by simp at h; omega)
  obtain ⟨hportBytes, hhostBytes, hcanon⟩ := addressBytes_ofWire hp hh
  refine ⟨.rpsPeer _ rest, ⟨[], ?_⟩, rfl, ?_, by rw [canonical, hcanon], by simp [Blank]⟩
  · rw [readPayload, Reader.bind_of_ok (atLeast_of_le (by simpa using h)),
      Reader.bind_of_ok (Reader.word16_append hp), Reader.bind_of_ok (Reader.word16_append hu),
      readHost, Reader.bind_of_ok (Reader.number_append hh),
      Reader.bind_of_ok (Reader.rest_apply _)]
    rfl
  · have hz : Bytes.zeroed [2, 3] (port ++ (unused ++ (host ++ rest))) = _ :=
      Bytes.zeroed_append (by rw [hp, hu]; rfl)
    rw [payload, hportBytes, hhostBytes]
    simpa [reserved, hu, Kind.reserved] using hz.symm

theorem spelled_error {p : Bytes} (h : p.length = 8) : ∃ m, Spelled .tunnelError p m := by
  obtain ⟨request, q, rfl, hr⟩ := Bytes.exists_append (b := p) (n := 2) (by omega)
  obtain ⟨unused, id, rfl, hu⟩ := Bytes.exists_append (b := q) (n := 2) (by simp at h; omega)
  have hid : id.length = 4 := by
    simp only [List.length_append] at h
    omega
  refine ⟨.tunnelError (UInt16.ofNat (Bytes.toNat request)) (UInt32.ofNat (Bytes.toNat id)),
    ⟨[], ?_⟩, rfl, ?_, rfl, by simp [Blank]⟩
  · rw [readPayload, Reader.bind_of_ok (exactly_of_eq h),
      Reader.bind_of_ok (Reader.word16_append hr), Reader.bind_of_ok (Reader.word16_append hu),
      Reader.bind_of_ok (Reader.word32_of_length hid)]
    rfl
  · have hz : Bytes.zeroed [2, 3] (request ++ (unused ++ id)) = _ :=
      Bytes.zeroed_append (by rw [hr, hu]; rfl)
    rw [payload, word16Bytes, Bytes.word16_toNat hr, word32Bytes, Bytes.word32_toNat hid]
    simpa [reserved, hu, Kind.reserved] using hz.symm

theorem spelled_cover {p : Bytes} (h : p.length = 4) : ∃ m, Spelled .cover p m := by
  obtain ⟨size, unused, rfl, hs⟩ := Bytes.exists_append (b := p) (n := 2) (by omega)
  have hu : unused.length = 2 := by
    simp only [List.length_append] at h
    omega
  -- `exactly` counts the reserved bytes, but they are left where they are.
  refine ⟨.cover (UInt16.ofNat (Bytes.toNat size)), ⟨unused, ?_⟩, rfl, ?_, rfl, by simp [Blank]⟩
  · rw [readPayload, Reader.bind_of_ok (exactly_of_eq h),
      Reader.bind_of_ok (Reader.word16_append hs)]
    rfl
  · have hz : Bytes.zeroed [2, 3] (size ++ (unused ++ [])) = _ :=
      Bytes.zeroed_append (by rw [hs, hu]; rfl)
    rw [payload, word16Bytes, Bytes.word16_toNat hs]
    simpa [reserved, hu, Kind.reserved] using hz.symm

theorem spelled_incoming {p : Bytes} (h : 4 ≤ p.length)
    (hlength : 4 + Bytes.toNat ((p.drop 2).take 2) ≤ p.length) :
    ∃ m, Spelled .incomingHandshake1 p m := by
  obtain ⟨unused, q, rfl, hu⟩ := Bytes.exists_append (b := p) (n := 2) (by omega)
  obtain ⟨length, q, rfl, hl⟩ := Bytes.exists_append (b := q) (n := 2) (by simp at h; omega)
  rw [List.drop_left' hu, List.take_left' hl] at hlength
  simp only [List.length_append] at hlength
  obtain ⟨hostkey, rest, rfl, hk⟩ :=
    Bytes.exists_append (b := q) (n := Bytes.toNat length) (by omega)
  have hlt := Bytes.toNat_lt length
  rw [hl] at hlt
  refine ⟨.incomingHandshake1 hostkey rest, ⟨[], ?_⟩, rfl, ?_, rfl, by simp [Blank]⟩
  · rw [readIncoming_append hu hl, if_neg (by simp only [List.length_append]; omega),
      Reader.bind_of_ok (Reader.bytes_append hk), Reader.bind_of_ok (Reader.rest_apply _)]
    rfl
  · have hz : Bytes.zeroed [0, 1] ([] ++ (unused ++ (length ++ (hostkey ++ rest)))) = _ :=
      Bytes.zeroed_append (by rw [hu]; rfl)
    rw [payload, if_neg (by omega), hk, Bytes.ofNat_toNat_of_length hl]
    simpa [reserved, hu, Kind.reserved] using hz.symm

theorem spelled_pair {p : Bytes} (h : 2 ≤ p.length) (heven : p.length % 2 = 0) :
    ∃ m, Spelled .handshake1 p m := by
  obtain ⟨key, mac, rfl, hk⟩ := Bytes.exists_append (b := p) (n := p.length / 2) (by omega)
  have hmac : key.length = mac.length := by
    simp only [List.length_append] at hk heven
    omega
  refine ⟨.handshake1 key mac, ⟨[], ?_⟩, rfl, ?_, rfl, ?_⟩
  · rw [readPayload, Reader.bind_of_ok (atLeast_of_le h),
      Reader.bind_of_ok (Reader.remaining_apply _), if_neg (by omega),
      Reader.bind_of_ok (Reader.bytes_append hk), Reader.bind_of_ok (Reader.rest_apply _)]
    rfl
  · rw [payload, if_neg (by simpa using hmac)]
    exact congrArg Except.ok (Bytes.zeroed_none _).symm
  · rintro (hm | hm)
    · obtain ⟨rfl, rfl⟩ := handshake1.inj hm
      simp at h
    · cases hm

/-- A payload with nothing wrong in it is read as a message that is written as that payload, but
for the reserved places. -/
theorem readPayload_of_sound {k : Kind} {p : Bytes} (h : k.payloadFault? p = none) :
    ∃ m, Spelled k p m := by
  have short {minimum : Nat} (h : Kind.shortFault? minimum p.length = none) :=
    Kind.shortFault?_eq_none.1 h
  have exact {expected : Nat} (h : Kind.exactFault? expected p.length = none) :=
    Kind.exactFault?_eq_none.1 h
  cases k with
  | rpsQuery => exact spelled_empty .rpsQuery rfl rfl rfl rfl rfl (by simp [Blank]) (exact h)
  | sessionConfirmed =>
    exact spelled_empty .sessionConfirmed rfl rfl rfl rfl rfl (by simp [Blank]) (exact h)
  | sessionDeclined =>
    exact spelled_empty .sessionDeclined rfl rfl rfl rfl rfl (by simp [Blank]) (exact h)
  | rpsPeer => exact spelled_peer (short h)
  | tunnelBuild =>
    exact spelled_routed .tunnelBuild rfl (fun _ _ => rfl) rfl (fun _ _ => rfl) (fun _ _ => rfl)
      (by simp [Blank]) (short h)
  | tunnelExtend =>
    exact spelled_routed .tunnelExtend rfl (fun _ _ => rfl) rfl (fun _ _ => rfl) (fun _ _ => rfl)
      (by simp [Blank]) (short h)
  | tunnelReady =>
    exact spelled_tagged .tunnelReady rfl (fun _ _ => rfl) rfl (fun _ _ => rfl) (fun _ _ => rfl)
      (by simp [Blank]) (short h)
  | tunnelIncoming =>
    exact spelled_tagged .tunnelIncoming rfl (fun _ _ => rfl) rfl (fun _ _ => rfl)
      (fun _ _ => rfl) (by simp [Blank]) (short h)
  | tunnelData =>
    exact spelled_tagged .tunnelData rfl (fun _ _ => rfl) rfl (fun _ _ => rfl) (fun _ _ => rfl)
      (by simp [Blank]) (short h)
  | sessionHandshake1 =>
    exact spelled_tagged .sessionHandshake1 rfl (fun _ _ => rfl) rfl (fun _ _ => rfl)
      (fun _ _ => rfl) (by simp [Blank]) (short h)
  | sessionHandshake2 =>
    exact spelled_tagged .sessionHandshake2 rfl (fun _ _ => rfl) rfl (fun _ _ => rfl)
      (fun _ _ => rfl) (by simp [Blank]) (short h)
  | incomingHandshake2 =>
    exact spelled_tagged .incomingHandshake2 rfl (fun _ _ => rfl) rfl (fun _ _ => rfl)
      (fun _ _ => rfl) (by simp [Blank]) (short h)
  | tunnelDestroy =>
    exact spelled_id .tunnelDestroy rfl (fun _ => rfl) rfl (fun _ => rfl) (fun _ => rfl)
      (by simp [Blank]) (exact h)
  | sessionClose =>
    exact spelled_id .sessionClose rfl (fun _ => rfl) rfl (fun _ => rfl) (fun _ => rfl)
      (by simp [Blank]) (exact h)
  | tunnelError => exact spelled_error (exact h)
  | cover => exact spelled_cover (exact h)
  | sessionStart =>
    exact ⟨.sessionStart p, ⟨[], rfl⟩, rfl, congrArg Except.ok (Bytes.zeroed_none p).symm, rfl,
      by simp [Blank]⟩
  | layerEncrypted =>
    exact spelled_layered .layerEncrypted rfl (fun _ _ => rfl) rfl (fun _ _ => rfl)
      (fun _ _ => rfl) (by simp [Blank]) (short h)
  | layerDecrypted =>
    exact spelled_layered .layerDecrypted rfl (fun _ _ => rfl) rfl (fun _ _ => rfl)
      (fun _ _ => rfl) (by simp [Blank]) (short h)
  | layerEncrypt =>
    obtain ⟨hlength, hlayers⟩ := Option.or_eq_none_iff.1 h
    exact spelled_layers .layerEncrypt rfl (fun _ _ _ => rfl) rfl (fun _ _ _ => rfl)
      (fun _ _ _ => rfl) (by simp [Blank]) (short hlength) (short hlayers)
  | layerDecrypt =>
    obtain ⟨hlength, hlayers⟩ := Option.or_eq_none_iff.1 h
    exact spelled_layers .layerDecrypt rfl (fun _ _ _ => rfl) rfl (fun _ _ _ => rfl)
      (fun _ _ _ => rfl) (by simp [Blank]) (short hlength) (short hlayers)
  | incomingHandshake1 =>
    obtain ⟨hlength, hkey⟩ := Option.or_eq_none_iff.1 h
    exact spelled_incoming (short hlength) (short hkey)
  | handshake1 =>
    obtain ⟨hlength, heven⟩ := Option.or_eq_none_iff.1 h
    exact spelled_pair (short hlength) (by simpa using heven)
  | handshake2 =>
    have hp : 1 ≤ p.length := short h
    refine ⟨.handshake2 p, ⟨[], ?_⟩, rfl, congrArg Except.ok (Bytes.zeroed_none p).symm, rfl, ?_⟩
    · rw [readPayload, Reader.bind_of_ok (atLeast_of_le hp),
        Reader.bind_of_ok (Reader.rest_apply _)]
      rfl
    · rintro (hm | hm)
      · cases hm
      · obtain rfl := handshake2.inj hm
        simp at hp

end Message

end OnionTunnel
