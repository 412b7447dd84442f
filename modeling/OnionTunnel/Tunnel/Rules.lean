import OnionTunnel.Duration

/-!
# How hops are negotiated
-/

namespace OnionTunnel

/-- Who negotiates the sessions with the hops of a tunnel past the first. -/
inductive TunnelMode where
  /-- The owner reaches every hop on its own. -/
  | direct
  /-- The part of the tunnel that is built already passes the handshakes on, so that each hop
  learns its neighbours only. -/
  | relayed
  deriving DecidableEq, Repr

/-- The name of a mode. -/
def TunnelMode.name : TunnelMode → String
  | direct => "direct"
  | relayed => "relayed"

/-- The mode with a name. -/
def TunnelMode.ofName? (s : String) : Option TunnelMode :=
  [TunnelMode.direct, .relayed].find? fun m => m.name = s

/-- How a node negotiates hops: the mode of its tunnels, the limit of one exchange with a hop, and
the draws for one identifier. -/
structure HopRules where
  mode : TunnelMode
  timeout : Duration
  idAttempts : Nat
  deriving DecidableEq, Repr

end OnionTunnel
