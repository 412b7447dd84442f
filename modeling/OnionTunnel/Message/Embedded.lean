import OnionTunnel.Message.Frame

/-!
# Embedded handshakes

Messages of the session kinds carry a handshake as a whole frame. It is read only when it is
needed, and it has to be of the kind that the step expects.
-/

namespace OnionTunnel.Message

/-- The blocks of an embedded first handshake: the key's and the tag key's. -/
def embedded1 (handshake : Bytes) : Except FrameError (Bytes × Bytes) := do
  match ← decode handshake with
  | handshake1 key mac => .ok (key, mac)
  | other => .error (.malformed (.embedded .handshake1 other.kind))

/-- The block of an embedded second handshake. -/
def embedded2 (handshake : Bytes) : Except FrameError Bytes := do
  match ← decode handshake with
  | handshake2 mac => .ok mac
  | other => .error (.malformed (.embedded .handshake2 other.kind))

end OnionTunnel.Message
