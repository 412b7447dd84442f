import OnionTunnel.Node.Basic

/-!
# Messages to peers

An exchange with a peer has a limit. Handshakes and cells have one kind of reply each; that a link
is to be dropped is not answered.
-/

namespace OnionTunnel.Node

/-- Sends a message to a peer and waits for the reply. -/
def askPeer (dest : Address) (m : Message) : Action Message := do
  request (some (← get).rules.timeout) dest m

/-- The link and the handshake that a peer returns for a handshake. -/
def returnedHandshake : Message → Action (UInt32 × Bytes)
  | .sessionHandshake2 link handshake => return (link, handshake)
  | other => throw (.ofReply .incomingHandshake1 other)

/-- Delivers a handshake to a peer: its link and the handshake that comes back. -/
def deliverHandshake (dest : Address) (hostkey handshake : Bytes) : Action (UInt32 × Bytes) := do
  returnedHandshake (← askPeer dest (.incomingHandshake1 hostkey handshake))

/-- Sends a cell on a peer's link and waits for the cell that comes back. -/
def sendCell (dest : Address) (link : UInt32) (data : Bytes) : Action Bytes := do
  match ← askPeer dest (.tunnelData link data) with
  | .tunnelData _ reply => return reply
  | other => throw (.ofReply .tunnelData other)

/-- Tells a peer to drop a link. -/
def dropLink (dest : Address) (link : UInt32) : Program Node Unit := do
  notify (some (← get).rules.timeout) dest (.tunnelDestroy link)

end OnionTunnel.Node
