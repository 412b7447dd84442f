import OnionTunnel.Stream

/-!
# Served connections

A connection hands each message it reads to a handler and writes the replies. Frames of
unregistered kinds are skipped. Any other error ends the connection, and so does a reply that
cannot be written; the handler has seen that reply's message by then.
-/

namespace OnionTunnel

/-- Reacts to a message in a state; `none` is no reply. -/
abbrev Handler (σ : Type) := σ → Message → Option Message × σ

/-- What came of a connection: the bytes sent back, the messages handled and the handler's state. -/
structure Served (σ : Type) where
  sent : Bytes
  handled : List Message
  state : σ

namespace Connection

variable {σ : Type}

/-- Serves a stream to its end. -/
def serve (handle : Handler σ) (state : σ) (s : Stream) : Served σ :=
  let result := (Stream.readMessage s).1
  if _h : Stream.isEnd result = true then ⟨[], [], state⟩
  else
    match result with
    | .error (.unknownKind _) => serve handle state (Stream.readMessage s).2
    | .error _ => ⟨[], [], state⟩
    | .ok m =>
      let (reply, state) := handle state m
      match reply.map Message.encode with
      | none =>
        let after := serve handle state (Stream.readMessage s).2
        { after with handled := m :: after.handled }
      | some (.ok frame) =>
        let after := serve handle state (Stream.readMessage s).2
        { after with sent := frame ++ after.sent, handled := m :: after.handled }
      | some (.error _) => ⟨[], [m], state⟩
termination_by s.flatten.length
decreasing_by all_goals exact Stream.readMessage_shorter s (by simpa using _h)

end Connection

end OnionTunnel
