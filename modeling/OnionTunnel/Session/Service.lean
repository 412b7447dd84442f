import OnionTunnel.Message.Embedded
import OnionTunnel.Session.Layers

/-!
# Session requests

A node's other modules reach its registry by messages. A request that fails is answered with
`sessionDeclined`; closing a session and kinds that are no requests are not answered.
-/

namespace OnionTunnel.SessionRegistry

/-- The bytes in front of a layered payload. -/
def layerReplyHeader : Nat := 4

/-- What a frame operation gives, or its error as a malformed message. -/
def ofFrame {α : Type} : Except FrameError α → Action α
  | .ok a => return a
  | .error e => throw (.malformed e)

/-- A payload that still fits a reply. -/
def fitting (payload : Bytes) : Action Bytes :=
  if maxPayload < payload.length + layerReplyHeader then
    throw (.malformed (.tooLarge payload.length))
  else return payload

/-- Does what a message asks for and gives the reply, if one is due. -/
def dispatch (now : Instant) : Message → Action (Option Message)
  | .sessionStart hostkey => do
    let (id, key, mac) ← start now hostkey
    return some (.sessionHandshake1 id (← ofFrame (Message.handshake1 key mac).encode))
  | .incomingHandshake1 hostkey handshake => do
    let (key, mac) ← ofFrame (Message.embedded1 handshake)
    let (id, block) ← accept now hostkey key mac
    return some (.sessionHandshake2 id (← ofFrame (Message.handshake2 block).encode))
  | .incomingHandshake2 id handshake => do
    confirm now id (← ofFrame (Message.embedded2 handshake))
    return some .sessionConfirmed
  | .layerEncrypt request ids payload => do
    return some (.layerEncrypted request (← fitting (← layerEncrypt now ids payload)))
  | .layerDecrypt request ids payload => do
    return some (.layerDecrypted request (← fitting (← layerDecrypt now ids payload)))
  | .sessionClose id => do
    modify (·.close id)
    return none
  | _ => return none

/-- The reply to a message and the registry after it. -/
def handle (now : Instant) (m : Message) (r : SessionRegistry) : Option Message × SessionRegistry :=
  match (dispatch now m).run r with
  | (.ok reply, r) => (reply, r)
  | (.error _, r) => (some .sessionDeclined, r)

end OnionTunnel.SessionRegistry
