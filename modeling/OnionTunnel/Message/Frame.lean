import OnionTunnel.Bytes.Reader
import OnionTunnel.Message.Basic
import OnionTunnel.Message.Error

/-!
# Frames

A frame is a header and a payload. The header holds the size of the whole frame and the code of
the message's kind, two bytes each. Each kind has one payload layout; its reserved bytes are
written as zero and not looked at when read.

Reading checks, in this order: a whole header, a size of at least the header, no missing bytes, no
bytes left over, a registered code, and then the payload's own layout. Writing reports what is
wrong with a payload before its size.

## Implementation notes

`readPayload` checks the length of each part before it reads it, so its reader never ends for want
of bytes. `decodePayload` still has to say something in that case and names an empty payload.
-/

namespace OnionTunnel

/-- The header of a frame, as it stands there. -/
structure Header where
  size : UInt16
  code : UInt16
  deriving DecidableEq, Repr

namespace Header

/-- The header for a payload of a given length. -/
def forPayload (kind : Kind) (length : Nat) : Except FrameError Header :=
  let total := headerLength + length
  if maxFrame < total then .error (.tooLarge total)
  else .ok ⟨UInt16.ofNat total, kind.code⟩

/-- The length of the payload that a header announces. -/
def payloadLength (h : Header) : Nat :=
  h.size.toNat - headerLength

theorem payloadLength_le (h : Header) : h.payloadLength ≤ h.size.toNat :=
  Nat.sub_le _ _

/-- The four bytes of a header. -/
def encode (h : Header) : Bytes :=
  Bytes.ofNat 2 h.size.toNat ++ Bytes.ofNat 2 h.code.toNat

/-- Reads a header of a length that has been checked. -/
def read : Reader FrameError Header := do
  let size ← Reader.word16
  let code ← Reader.word16
  if size.toNat < headerLength then Reader.fail (.invalidSize size)
  else return ⟨size, code⟩

/-- Reads the header in front of a byte string. -/
def decode (b : Bytes) : Except FrameError Header :=
  if b.length < headerLength then .error (.tooShort b.length headerLength)
  else
    match read b with
    | some (.ok (h, _)) => .ok h
    | some (.error e) => .error e
    | none => .error (.tooShort b.length headerLength)

end Header

namespace Message

/-- The bytes of a host on the wire. -/
def hostBytes (a : Address) : Bytes :=
  Bytes.ofNat 16 a.wireHost

/-- Two reserved bytes. -/
def reserved : Bytes := [0, 0]

/-- The bytes of a port. -/
def portBytes (a : Address) : Bytes :=
  Bytes.ofNat 2 a.port.toNat

/-- The bytes of a two-byte word. -/
def word16Bytes (n : UInt16) : Bytes :=
  Bytes.ofNat 2 n.toNat

/-- The bytes of a four-byte word. -/
def word32Bytes (n : UInt32) : Bytes :=
  Bytes.ofNat 4 n.toNat

/-- The payload of a request for layers. -/
def layerPayload (request : UInt16) (sessions : List UInt32) (payload : Bytes) :
    Except FrameError Bytes :=
  if 255 < sessions.length then .error (.malformed (.tooManyLayers sessions.length))
  else .ok (UInt8.ofNat sessions.length :: 0 :: word16Bytes request ++
    sessions.flatMap word32Bytes ++ payload)

/-- The payload of a message. -/
def payload : Message → Except FrameError Bytes
  | rpsQuery | sessionConfirmed | sessionDeclined => .ok []
  | rpsPeer a k => .ok (portBytes a ++ reserved ++ hostBytes a ++ k)
  | tunnelBuild a k => .ok (reserved ++ portBytes a ++ hostBytes a ++ k)
  | tunnelExtend a i => .ok (reserved ++ portBytes a ++ hostBytes a ++ i)
  | tunnelReady t k | tunnelIncoming t k => .ok (word32Bytes t ++ k)
  | tunnelDestroy t => .ok (word32Bytes t)
  | tunnelData t d => .ok (word32Bytes t ++ d)
  | tunnelError r t => .ok (word16Bytes r ++ reserved ++ word32Bytes t)
  | cover n => .ok (word16Bytes n ++ reserved)
  | sessionStart k => .ok k
  | sessionHandshake1 s h | sessionHandshake2 s h | incomingHandshake2 s h =>
    .ok (word32Bytes s ++ h)
  | incomingHandshake1 k h =>
    if 65535 < k.length then .error (.tooLarge k.length)
    else .ok (reserved ++ Bytes.ofNat 2 k.length ++ k ++ h)
  | layerEncrypt r ss p | layerDecrypt r ss p => layerPayload r ss p
  | layerEncrypted r p | layerDecrypted r p => .ok (word16Bytes r ++ reserved ++ p)
  | sessionClose s => .ok (word32Bytes s)
  | handshake1 key mac =>
    if key.length ≠ mac.length then
      .error (.malformed (.unequalBlocks key.length mac.length))
    else .ok (key ++ mac)
  | handshake2 mac => .ok mac

/-- The frame of a message. -/
def encode (m : Message) : Except FrameError Bytes := do
  let payload ← m.payload
  let header ← Header.forPayload m.kind payload.length
  return header.encode ++ payload

/-- Ends with an error unless `minimum` bytes are left. -/
def atLeast (minimum : Nat) : Reader FrameError Unit := do
  let n ← Reader.remaining
  if n < minimum then Reader.fail (.tooShort n minimum)

/-- Ends with an error unless exactly `length` bytes are left. -/
def exactly (length : Nat) : Reader FrameError Unit := do
  atLeast length
  let n ← Reader.remaining
  if length < n then Reader.fail (.malformed (.afterPayload (n - length)))

/-- Reads a host. -/
def readHost : Reader FrameError Nat :=
  Reader.number 16

/-- Reads a reserved word, a port and a host. -/
def readAddress : Reader FrameError Address := do
  atLeast 20
  let _ ← Reader.word16
  let port ← Reader.word16
  return Address.ofWire (← readHost) port

/-- Reads an id and the bytes after it. -/
def readTagged (make : UInt32 → Bytes → Message) : Reader FrameError Message := do
  atLeast 4
  let id ← Reader.word32
  return make id (← Reader.rest)

/-- Reads an id that stands alone. -/
def readId (make : UInt32 → Message) : Reader FrameError Message := do
  exactly 4
  return make (← Reader.word32)

/-- Reads a request for layers. -/
def readLayers (make : UInt16 → List UInt32 → Bytes → Message) : Reader FrameError Message := do
  atLeast 4
  let total ← Reader.remaining
  let layers ← Reader.byte
  let _ ← Reader.byte
  let request ← Reader.word16
  if (← Reader.remaining) < layers * 4 then Reader.fail (.tooShort total (4 + layers * 4))
  else
    let sessions ← Reader.words32 layers
    return make request sessions (← Reader.rest)

/-- Reads an answer to a request for layers. -/
def readLayered (make : UInt16 → Bytes → Message) : Reader FrameError Message := do
  atLeast 4
  let request ← Reader.word16
  let _ ← Reader.word16
  return make request (← Reader.rest)

/-- Reads the payload of a message of a given kind. -/
def readPayload : Kind → Reader FrameError Message
  | .rpsQuery => do exactly 0; return rpsQuery
  | .rpsPeer => do
    atLeast 20
    let port ← Reader.word16
    let _ ← Reader.word16
    let host ← readHost
    return rpsPeer (Address.ofWire host port) (← Reader.rest)
  | .tunnelBuild => do
    let a ← readAddress
    return tunnelBuild a (← Reader.rest)
  | .tunnelReady => readTagged tunnelReady
  | .tunnelIncoming => readTagged tunnelIncoming
  | .tunnelDestroy => readId tunnelDestroy
  | .tunnelData => readTagged tunnelData
  | .tunnelError => do
    exactly 8
    let request ← Reader.word16
    let _ ← Reader.word16
    return tunnelError request (← Reader.word32)
  | .cover => do
    exactly 4
    return cover (← Reader.word16)
  | .tunnelExtend => do
    let a ← readAddress
    return tunnelExtend a (← Reader.rest)
  | .sessionStart => do return sessionStart (← Reader.rest)
  | .sessionHandshake1 => readTagged sessionHandshake1
  | .incomingHandshake1 => do
    atLeast 4
    let total ← Reader.remaining
    let _ ← Reader.word16
    let length ← Reader.number 2
    if (← Reader.remaining) < length then Reader.fail (.tooShort total (4 + length))
    else
      let hostkey ← Reader.bytes length
      return incomingHandshake1 hostkey (← Reader.rest)
  | .sessionHandshake2 => readTagged sessionHandshake2
  | .incomingHandshake2 => readTagged incomingHandshake2
  | .layerEncrypt => readLayers layerEncrypt
  | .layerEncrypted => readLayered layerEncrypted
  | .layerDecrypt => readLayers layerDecrypt
  | .layerDecrypted => readLayered layerDecrypted
  | .sessionClose => readId sessionClose
  | .handshake1 => do
    atLeast 2
    let n ← Reader.remaining
    if n % 2 ≠ 0 then Reader.fail (.malformed (.oddBlocks n))
    else
      let key ← Reader.bytes (n / 2)
      return handshake1 key (← Reader.rest)
  | .handshake2 => do
    atLeast 1
    return handshake2 (← Reader.rest)
  | .sessionConfirmed => do exactly 0; return sessionConfirmed
  | .sessionDeclined => do exactly 0; return sessionDeclined

/-- Reads the payload that follows a header with the given code. -/
def decodePayload (code : UInt16) (payload : Bytes) : Except FrameError Message :=
  match Kind.ofCode? code with
  | none => .error (.unknownKind code)
  | some kind =>
    match readPayload kind payload with
    | some (.ok (m, _)) => .ok m
    | some (.error e) => .error e
    | none => .error (.tooShort 0 0)

/-- Reads exactly one frame. -/
def decode (b : Bytes) : Except FrameError Message := do
  let header ← Header.decode b
  let size := header.size.toNat
  if b.length < size then .error (.truncated size b.length)
  else if size < b.length then .error (.malformed (.afterFrame (b.length - size)))
  else decodePayload header.code (b.drop headerLength)

/-- A message as the other side reads it, or why it does not get there. -/
def transmit (m : Message) : Except FrameError Message := do
  decode (← m.encode)

end Message

end OnionTunnel
