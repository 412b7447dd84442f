/-!
# The handshake of a session

A session has two ends. The initiator sends the first handshake and is established when the second
one comes back; the responder is established by the first one. Either end may close at any time.

| role | from | event | to |
|---|---|---|---|
| initiator | initiated | `sendHandshake1` | awaiting confirmation |
| initiator | awaiting confirmation | `receiveHandshake2` | established |
| responder | initiated | `receiveHandshake1` | established |
| any | any | `close` | closed |
-/

namespace OnionTunnel.Session

/-- Which end of a session a node holds. -/
inductive Role where
  | initiator
  | responder
  deriving DecidableEq, Repr

/-- How far a session has come. -/
inductive State where
  /-- The identifier is taken and nothing has been sent. -/
  | initiated
  /-- The first handshake is out and the second one is not back. -/
  | awaitingConfirm
  /-- The session key and both tag keys are known. -/
  | established
  | closed
  deriving DecidableEq, Repr

/-- The text of a state. -/
def State.text : State → String
  | initiated => "initiated"
  | awaitingConfirm => "awaiting-confirm"
  | established => "established"
  | closed => "closed"

/-- What moves a session on. -/
inductive Event where
  | sendHandshake1
  | receiveHandshake1
  | receiveHandshake2
  | close
  deriving DecidableEq, Repr

/-- The name of an event. -/
def Event.name : Event → String
  | sendHandshake1 => "SendHandshake1"
  | receiveHandshake1 => "ReceiveHandshake1"
  | receiveHandshake2 => "ReceiveHandshake2"
  | close => "Close"

/-- Why an event does not fit. -/
inductive HandshakeFault where
  | invalidTransition (state : State) (event : Event)
  | duplicateHandshake2
  deriving DecidableEq, Repr

/-- The text of an event that does not fit. -/
def HandshakeFault.message : HandshakeFault → String
  | invalidTransition state event =>
    s!"invalid state transition from {state.text} via {event.name}"
  | duplicateHandshake2 => "duplicate handshake-2"

/-- One end of a session and how far it has come. -/
structure Handshake where
  role : Role
  state : State
  deriving DecidableEq, Repr

namespace Handshake

/-- An end that has neither sent nor received. -/
def fresh (role : Role) : Handshake := ⟨role, .initiated⟩

/-- The state that an event leads to. -/
def target (h : Handshake) (event : Event) : Except HandshakeFault State :=
  match event, h.role, h.state with
  | .close, _, _ => .ok .closed
  | .sendHandshake1, .initiator, .initiated => .ok .awaitingConfirm
  | .receiveHandshake1, .responder, .initiated => .ok .established
  | .receiveHandshake2, .initiator, .awaitingConfirm => .ok .established
  | .receiveHandshake2, .initiator, .established => .error .duplicateHandshake2
  | _, _, _ => .error (.invalidTransition h.state event)

/-- The end after an event. -/
def step (h : Handshake) (event : Event) : Except HandshakeFault Handshake := do
  return { h with state := ← h.target event }

/-- Closing fits every state. -/
@[simp] theorem step_close (h : Handshake) : h.step .close = .ok { h with state := .closed } := rfl

end Handshake

end OnionTunnel.Session
