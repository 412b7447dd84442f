import OnionTunnel.Identity
import OnionTunnel.Table
import OnionTunnel.Tunnel.Error

/-!
# Links of a hop

A hop holds a link for each session that another node opened with it. A link is numbered like its
session. Once it has been extended, its cells go on to the next hop; it is extended once only.
-/

namespace OnionTunnel

/-- Where cells go on to: the next hop and its own number for the session with it. -/
structure Downstream where
  address : Address
  link : UInt32
  deriving DecidableEq

/-- A link: who opened it and where it goes on. -/
structure Link where
  peer : Identity
  downstream? : Option Downstream
  deriving DecidableEq

/-- The links of one hop. -/
abbrev LinkTable := Table UInt32 Link

namespace LinkTable

/-- Adds a link that ends here. -/
def accept (t : LinkTable) (id : UInt32) (peer : Identity) : LinkTable :=
  t.insert id ⟨peer, none⟩

/-- Gives a link its next hop. -/
def extend (t : LinkTable) (id : UInt32) (next : Downstream) : Except TunnelError LinkTable :=
  match t.get? id with
  | none => .error (.linkNotFound id)
  | some ⟨peer, none⟩ => .ok (t.insert id ⟨peer, some next⟩)
  | some ⟨_, some _⟩ => .error (.alreadyExtended id)

end LinkTable

end OnionTunnel
