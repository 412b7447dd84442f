import OnionTunnel.Node.Hop
import OnionTunnel.Session.Service

/-!
# The services of a node

A node answers session requests, requests of local clients, and messages of peers. A request of a
client or a peer that fails is answered with the kind that failed; kinds that a service does not
know are not answered.
-/

namespace OnionTunnel

/-- The services of a node. -/
inductive Service where
  | sessions
  | clients
  | peers
  deriving DecidableEq, Repr

/-- Every service. -/
def Service.all : List Service := [.sessions, .clients, .peers]

namespace Node

/-- The reply to a request that failed. -/
def failure (request : Kind) (tunnel : UInt32) : Message :=
  .tunnelError request.code tunnel

/-- Asks for a random peer. -/
def sample (sampler : Address) : Action Hop := do
  match ← (Program.exchange none sampler .rpsQuery : Program Node Outcome) with
  | .ok (some (.rpsPeer address hostkey)) => return ⟨address, hostkey⟩
  | .ok (some other) => throw (.ofReply .rpsQuery other)
  | .ok none => throw (.sampling (.exchange .closed))
  | .error e => throw (.sampling (.exchange e))

/-- The hops of a client's tunnel: random peers, if they are asked for, and the destination. -/
def routeTo (destination : Hop) : Action (List Hop) := do
  let n ← get
  let sampled ← match n.sampler? with
    | some sampler => (List.replicate n.sampledHops sampler).mapM sample
    | none => pure []
  return sampled ++ [destination]

/-- The mode of a client's tunnel. A direct tunnel carries data over one hop only, so a longer one
is relayed. -/
def clientMode (rules : HopRules) (hops : Nat) : TunnelMode :=
  if 1 < hops then .relayed else rules.mode

/-- Builds a client's tunnel. -/
def buildFor (destination : Hop) : Action UInt32 := do
  let hops ← routeTo destination
  build (clientMode (← get).rules hops.length) hops

/-- Sends a payload through a tunnel and takes the layers off the reply. -/
def exchangeData (id : UInt32) (payload : Bytes) : Action Bytes := do
  receive id (← send id payload)

/-- Answers a session request. -/
def answerSessions (m : Message) : Program Node (Option Message) := do
  let now ← Program.clock
  modifyGet fun n =>
    let (reply, registry) := n.registry.handle now m
    (reply, { n with registry := registry })

/-- Answers a local client. -/
def answerClients : Message → Program Node (Option Message)
  | .tunnelBuild destination hostkey => do
    match ← (buildFor ⟨destination, hostkey⟩).run with
    | .ok id => return some (.tunnelReady id hostkey)
    | .error _ => return some (failure .tunnelBuild endLink)
  | .tunnelData id payload => do
    match ← (exchangeData id payload).run with
    | .ok reply => return some (.tunnelData id reply)
    | .error _ => return some (failure .tunnelData id)
  | .tunnelDestroy id => do
    match ← (teardown id).run with
    | .ok _ => return none
    | .error _ => return some (failure .tunnelDestroy id)
  | .cover _ => return some (failure .cover endLink)
  | _ => return none

/-- Answers a peer. -/
def answerPeers : Message → Program Node (Option Message)
  | .incomingHandshake1 hostkey handshake => do
    match ← (acceptHandshake hostkey handshake).run with
    | .ok (link, returned) => return some (.sessionHandshake2 link returned)
    | .error _ => return some (failure .incomingHandshake1 endLink)
  | .tunnelData link data => do
    match ← (handleCell link data).run with
    | .ok reply => return some (.tunnelData link reply)
    | .error _ => return some (failure .tunnelData link)
  | .tunnelDestroy link => do
    handleDestroy link
    return none
  | _ => return none

/-- Answers a message to one of the services. -/
def answer : Service → Message → Program Node (Option Message)
  | .sessions => answerSessions
  | .clients => answerClients
  | .peers => answerPeers

end Node

end OnionTunnel
