import OnionTunnel.Address
import OnionTunnel.Message.Kind

/-!
# Messages

A message is one request, reply or notice between a node's modules, its clients and its peers.
Between peers the tunnel id of `tunnelData` and `tunnelDestroy` is the receiving hop's link id.
Handshakes travel as whole frames inside other messages.
-/

namespace OnionTunnel

/-- The messages a node reads and writes. -/
inductive Message where
  /-- Asks for a random peer. -/
  | rpsQuery
  /-- Names a random peer. -/
  | rpsPeer (address : Address) (hostkey : Bytes)
  /-- Asks for a tunnel to a destination. -/
  | tunnelBuild (destination : Address) (hostkey : Bytes)
  /-- Reports a tunnel that is ready. -/
  | tunnelReady (tunnel : UInt32) (hostkey : Bytes)
  /-- Reports a tunnel that another node opened. -/
  | tunnelIncoming (tunnel : UInt32) (hostkey : Bytes)
  /-- Drops a tunnel or a link. -/
  | tunnelDestroy (tunnel : UInt32)
  /-- Carries data on a tunnel or a cell on a link. -/
  | tunnelData (tunnel : UInt32) (data : Bytes)
  /-- Reports that a request of the given kind failed. -/
  | tunnelError (request : UInt16) (tunnel : UInt32)
  /-- Asks for cover traffic. -/
  | cover (size : UInt16)
  /-- Asks the last hop of a route to pass a handshake on; travels inside cells only. -/
  | tunnelExtend (nextHop : Address) (incoming : Bytes)
  /-- Asks for a session with the owner of a hostkey. -/
  | sessionStart (hostkey : Bytes)
  /-- Names a started session and the handshake to deliver. -/
  | sessionHandshake1 (session : UInt32) (handshake : Bytes)
  /-- Delivers a first handshake from the owner of a hostkey. -/
  | incomingHandshake1 (hostkey handshake : Bytes)
  /-- Names an accepted session and the handshake to return. -/
  | sessionHandshake2 (session : UInt32) (handshake : Bytes)
  /-- Delivers the returned handshake of a started session. -/
  | incomingHandshake2 (session : UInt32) (handshake : Bytes)
  /-- Asks for one layer per session, in list order. -/
  | layerEncrypt (request : UInt16) (sessions : List UInt32) (payload : Bytes)
  /-- Answers with the layered payload. -/
  | layerEncrypted (request : UInt16) (payload : Bytes)
  /-- Asks to peel one layer per session, in reverse list order. -/
  | layerDecrypt (request : UInt16) (sessions : List UInt32) (payload : Bytes)
  /-- Answers with the peeled payload. -/
  | layerDecrypted (request : UInt16) (payload : Bytes)
  /-- Drops a session. -/
  | sessionClose (session : UInt32)
  /-- A session key and the starter's tag key, each sealed in one block of equal size. -/
  | handshake1 (key mac : Bytes)
  /-- The accepter's tag key, sealed in one block. -/
  | handshake2 (mac : Bytes)
  /-- Reports a session that is established. -/
  | sessionConfirmed
  /-- Reports a refused request. -/
  | sessionDeclined
  deriving DecidableEq, Repr

namespace Message

/-- The kind of a message. -/
def kind : Message → Kind
  | rpsQuery => .rpsQuery
  | rpsPeer .. => .rpsPeer
  | tunnelBuild .. => .tunnelBuild
  | tunnelReady .. => .tunnelReady
  | tunnelIncoming .. => .tunnelIncoming
  | tunnelDestroy .. => .tunnelDestroy
  | tunnelData .. => .tunnelData
  | tunnelError .. => .tunnelError
  | cover .. => .cover
  | tunnelExtend .. => .tunnelExtend
  | sessionStart .. => .sessionStart
  | sessionHandshake1 .. => .sessionHandshake1
  | incomingHandshake1 .. => .incomingHandshake1
  | sessionHandshake2 .. => .sessionHandshake2
  | incomingHandshake2 .. => .incomingHandshake2
  | layerEncrypt .. => .layerEncrypt
  | layerEncrypted .. => .layerEncrypted
  | layerDecrypt .. => .layerDecrypt
  | layerDecrypted .. => .layerDecrypted
  | sessionClose .. => .sessionClose
  | handshake1 .. => .handshake1
  | handshake2 .. => .handshake2
  | sessionConfirmed => .sessionConfirmed
  | sessionDeclined => .sessionDeclined

/-- A message as it arrives: its addresses are canonical, all else is kept. -/
def canonical : Message → Message
  | rpsPeer a k => .rpsPeer a.canonical k
  | tunnelBuild a k => .tunnelBuild a.canonical k
  | tunnelExtend a i => .tunnelExtend a.canonical i
  | m => m

end Message

end OnionTunnel
