import OnionTunnel.Duration
import OnionTunnel.Message.Basic

/-!
# Responders

A responder answers messages by a script. After an optional delay, the first of these that applies
gives the answer: a fixed one for the kind, a service that the message is passed to, the message
itself, and the next one of a queue with a last answer behind it.
-/

namespace OnionTunnel

/-- A script whose messages may be passed on to services named by `σ`. -/
structure Responder (σ : Type) where
  delay : Duration
  fixed : List (Kind × Option Message)
  passTo? : Option σ
  echoes : Bool
  queue : List (Option Message)
  last : Option Message

namespace Responder

variable {σ : Type}

/-- How a message is answered. -/
inductive Decision (σ : Type) where
  | reply (m : Option Message)
  | pass (dest : σ)
  | next

/-- What the script says of a message. -/
def decide (r : Responder σ) (m : Message) : Decision σ :=
  match r.fixed.lookup m.kind with
  | some reply => .reply reply
  | none =>
    match r.passTo? with
    | some dest => .pass dest
    | none =>
      if r.echoes then .reply (if m.kind = .sessionClose then none else some m) else .next

/-- The next answer of the queue, and the script after it. -/
def dequeue (r : Responder σ) : Option Message × Responder σ :=
  match r.queue with
  | [] => (r.last, r)
  | reply :: rest => (reply, { r with queue := rest })

end Responder

end OnionTunnel
