import OnionTunnel.Node.Program
import OnionTunnel.Session.Registry
import OnionTunnel.Tunnel.Link
import OnionTunnel.Tunnel.Sink
import OnionTunnel.Tunnel.Table

/-!
# Nodes

A node owns tunnels and is a hop of the tunnels of others. It holds its sessions in a registry,
which its other modules reach by messages only. Its peer directory is its own or the registry's.
-/

namespace OnionTunnel

/-- The state of one node. -/
structure Node where
  registry : SessionRegistry
  /-- The peer directory of the tunnels, if the registry's is not used. -/
  ownDirectory? : Option PeerDirectory
  tunnels : TunnelTable
  links : LinkTable
  /-- The number of the next request for layers. -/
  nextRequest : UInt16
  sink : Sink
  rules : HopRules
  /-- Where the node's session requests are answered. -/
  sessionService : Address
  /-- Where random peers are asked for, if they are. -/
  sampler? : Option Address
  /-- How many random peers stand before the destination of a client's tunnel. -/
  sampledHops : Nat

namespace Node

/-- The encoded public key that a node sends with every handshake. -/
def hostkey (n : Node) : Bytes := n.registry.keypair.hostkey

/-- The peer directory of a node's tunnels. -/
def directory (n : Node) : PeerDirectory :=
  n.ownDirectory?.getD n.registry.directory

/-- Changes the peer directory of a node's tunnels. -/
def updateDirectory (f : PeerDirectory → PeerDirectory) (n : Node) : Node :=
  match n.ownDirectory? with
  | some d => { n with ownDirectory? := some (f d) }
  | none => { n with registry := { n.registry with directory := f n.registry.directory } }

@[simp] theorem directory_updateDirectory (f : PeerDirectory → PeerDirectory) (n : Node) :
    (n.updateDirectory f).directory = f n.directory := by
  unfold updateDirectory directory
  split <;> simp [*]

@[simp] theorem sessions_updateDirectory (f : PeerDirectory → PeerDirectory) (n : Node) :
    (n.updateDirectory f).registry.sessions = n.registry.sessions := by
  unfold updateDirectory
  split <;> rfl

/-- What a node does that may fail. -/
abbrev Action := ExceptT TunnelError (Program Node)

/-- What an action ends with, which may be its failure. -/
def attempt {α : Type} (x : Action α) : Action (Except TunnelError α) :=
  ExceptT.lift x.run

/-- Sends a message and waits for the reply. -/
def request (limit : Option Duration) (dest : Address) (m : Message) : Action Message := do
  match ← (Program.exchange limit dest m : Program Node Outcome) with
  | .ok (some reply) => return reply
  | .ok none => throw (.connection .closed)
  | .error e => throw (.connection e)

/-- Sends a message, whatever comes of it. -/
def notify (limit : Option Duration) (dest : Address) (m : Message) : Program Node Unit := do
  let _ ← Program.exchange limit dest m

/-- What a frame operation gives, or its error as that of a connection. -/
def ofFrame {α : Type} : Except FrameError α → Action α
  | .ok a => return a
  | .error e => throw (.connection e)

end Node

end OnionTunnel
