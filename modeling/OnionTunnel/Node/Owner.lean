import OnionTunnel.Message.Frame
import OnionTunnel.Node.Peers
import OnionTunnel.Node.Sessions

/-!
# A node as the owner of tunnels

The hops of a tunnel are opened one after the other. If one cannot be opened, the sessions with
those before it are closed and the tunnel's identifier is given back; the error names the hop.

In the relayed mode the owner speaks to the first hop only: the handshake for a later hop travels
in a cell through the hops that are open, and when the tunnel goes, the first hop passes that on.
-/

namespace OnionTunnel.Node

/-- Sends a cell through a route of open hops and peels what comes back. -/
def relay (route : List OpenHop) (cell : Bytes) : Action Bytes := do
  match route.head? with
  | none => throw .emptyHopChain
  | some first =>
    let order := relayOrder route
    let reply ← sendCell first.address first.link (← encryptLayers order cell)
    decryptLayers order reply

/-- Delivers a handshake to a hop, through the route if there is one: the hop's link and the
handshake that comes back. -/
def reachHop (hop : Hop) (route : List OpenHop) (handshake : Bytes) : Action (UInt32 × Bytes) := do
  let hostkey := (← get).hostkey
  if route.isEmpty then deliverHandshake hop.address hostkey handshake
  else
    let incoming ← ofFrame (Message.incomingHandshake1 hostkey handshake).encode
    let command ← ofFrame (Message.tunnelExtend hop.address incoming).encode
    returnedHandshake (← ofFrame (Message.decode (← relay route command)))

/-- Opens a session with a hop. Once the hop has answered, it holds a link. If the session is not
confirmed then, a hop that was reached directly is told to drop the link; a hop at the end of a
route goes with the route. -/
def openHop (hop : Hop) (route : List OpenHop) : Action OpenHop := do
  let (session, handshake) ← startSession hop.hostkey
  match ← attempt (reachHop hop route handshake) with
  | .error e =>
    closeSession session
    throw e
  | .ok (link, returned) =>
    match ← attempt (confirmSession session returned) with
    | .ok _ =>
      modify (updateDirectory fun d =>
        (d.rememberPeer hop.identity hop.address).bindSession session hop.identity)
      return ⟨session, link, hop.address, hop.identity⟩
    | .error e =>
      if route.isEmpty then dropLink hop.address link
      closeSession session
      throw e

/-- The hops that are told when a tunnel goes. -/
def notified (mode : TunnelMode) (hops : List OpenHop) : List OpenHop :=
  match mode with
  | .direct => hops
  | .relayed => hops.take 1

/-- Has the hops drop their links, and closes the owner's end of each session. -/
def release (mode : TunnelMode) (hops : List OpenHop) : Program Node Unit := do
  (notified mode hops).forM fun h => dropLink h.address h.link
  hops.forM fun h => do
    closeSession h.session
    modify (updateDirectory (·.forgetPeer h.identity))

/-- The route to the next hop when some are open. -/
def routeBy (mode : TunnelMode) (built : List OpenHop) : List OpenHop :=
  match mode with
  | .direct => []
  | .relayed => built

/-- Opens hops after those that are open. If one fails, all that are open are released. -/
def openHops (mode : TunnelMode) : List OpenHop → List Hop → Action (List OpenHop)
  | built, [] => return built
  | built, hop :: rest => do
    match ← attempt (openHop hop (routeBy mode built)) with
    | .ok h => openHops mode (built ++ [h]) rest
    | .error cause =>
      release mode built
      throw (.buildFailed built.length cause)

/-- Takes an identifier for a tunnel. -/
def reserveTunnel : Action UInt32 := do
  let (id, tunnels) := (← get).tunnels.reserve
  modify fun n => { n with tunnels := tunnels }
  match id with
  | .ok id => return id
  | .error e => throw (.exhausted e)

/-- Builds a tunnel through hops, of which the last one is the destination. -/
def build (mode : TunnelMode) (hops : List Hop) : Action UInt32 := do
  match hops.getLast? with
  | none => throw .emptyHopChain
  | some destination =>
    let id ← reserveTunnel
    match ← attempt (openHops mode [] hops) with
    | .ok built =>
      modify fun n => { n with tunnels := n.tunnels.complete ⟨id, mode, built, destination.hostkey⟩ }
      return id
    | .error e =>
      modify fun n => { n with tunnels := n.tunnels.abandon id }
      throw e

/-- The ready tunnel with an identifier. -/
def tunnel (id : UInt32) : Action Tunnel := do
  match (← get).tunnels.get? id with
  | some t => return t
  | none => throw (.tunnelNotFound id)

/-- The link number of a payload that ends at the last hop. -/
def endLink : UInt32 := 0

/-- Sends a payload through a tunnel; the destination's reply comes back layered. -/
def send (id : UInt32) (payload : Bytes) : Action Bytes := do
  let t ← tunnel id
  match t.first? with
  | none => throw .emptyHopChain
  | some first =>
    let command ← ofFrame (Message.tunnelData endLink payload).encode
    sendCell first.address first.link (← encryptLayers t.layers command)

/-- Takes the layers off a reply. -/
def receive (id : UInt32) (layered : Bytes) : Action Bytes := do
  decryptLayers (← tunnel id).layers layered

/-- Takes the ready tunnel with an identifier out of the owner's table. -/
def takeTunnel (id : UInt32) : Action Tunnel := do
  let taken ← modifyGet fun n =>
    let (tunnel?, tunnels) := n.tunnels.take id
    (tunnel?, { n with tunnels := tunnels })
  match taken with
  | some t => return t
  | none => throw (.tunnelNotFound id)

/-- Forgets a tunnel and closes the sessions with its hops. -/
def teardown (id : UInt32) : Action Unit := do
  let t ← takeTunnel id
  release t.mode t.hops

end OnionTunnel.Node
