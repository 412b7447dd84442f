import OnionTunnel.Stream.Connection

/-!
# Exchanges over connections

A client dials an address, writes one message and, for a request, reads one reply, all within one
time limit. What dialling does is up to a host: it may have no way to the address at all, nobody
may listen there, or a served connection answers.
-/

namespace OnionTunnel

/-- What the far end of a connection makes of the bytes written to it: how long it takes, what it
sends back, and its state afterwards. -/
structure Answer (σ : Type) where
  after : Duration
  bytes : Bytes
  state : σ

/-- How a machine reaches addresses, in a state of the far ends. -/
structure Host (σ : Type) where
  dial : σ → Address → Except SystemFault (Bytes → Answer σ)

namespace Host

variable {σ : Type}

/-- A machine without a network. -/
def isolated : Host σ := ⟨fun _ _ => .error .networkUnreachable⟩

/-- A machine on which one address is served by a handler that answers at once. -/
def serving (address : Address) (handle : Handler σ) : Host σ where
  dial state dest :=
    if dest = address then
      .ok fun written =>
        let served := Connection.serve handle state [written]
        ⟨⟨0⟩, served.sent, served.state⟩
    else .error .connectionRefused

end Host

/-- Dials a fresh connection for each exchange. -/
structure Client where
  limit : Duration
  deriving DecidableEq, Repr

namespace Client

variable {σ : Type}

/-- The client with the usual limit of five seconds. -/
def standard : Client := ⟨Duration.ofSeconds 5⟩

/-- Dials and writes a message; the far end's answer follows. -/
def write (host : Host σ) (state : σ) (dest : Address) (m : Message) :
    Except FrameError (Answer σ) :=
  match host.dial state dest with
  | .error fault => .error (.system fault)
  | .ok answer => do
    let frame ← m.encode
    return answer frame

/-- Sends a message and reads the reply. -/
def request (client : Client) (host : Host σ) (state : σ) (dest : Address) (m : Message) :
    Except FrameError Message × σ :=
  match write host state dest m with
  | .error e => (.error e, state)
  | .ok answer =>
    if client.limit.nanoseconds ≤ answer.after.nanoseconds then
      (.error (.timeout client.limit), answer.state)
    else ((Stream.readMessage [answer.bytes]).1, answer.state)

/-- Sends a message and does not wait for a reply. -/
def send (_client : Client) (host : Host σ) (state : σ) (dest : Address) (m : Message) :
    Except FrameError Unit × σ :=
  match write host state dest m with
  | .error e => (.error e, state)
  | .ok answer => (.ok (), answer.state)

end Client

end OnionTunnel
