import OnionTunnel.Address
import OnionTunnel.IdPool
import OnionTunnel.Identity
import OnionTunnel.Table
import OnionTunnel.Tunnel.Rules

/-!
# Tunnels of their owner

The owner of a tunnel holds a session with each hop. An identifier is reserved before the hops are
opened, and the tunnel can be used once the last one is open.
-/

namespace OnionTunnel

/-- A peer to route through, before there is a session with it. -/
structure Hop where
  address : Address
  hostkey : Bytes
  deriving DecidableEq

/-- The identity of a hop. -/
def Hop.identity (h : Hop) : Identity := .ofHostkey h.hostkey

/-- A hop with a session: the owner's number for it, the hop's own, and where and who it is. -/
structure OpenHop where
  session : UInt32
  link : UInt32
  address : Address
  identity : Identity
  deriving DecidableEq

/-- The layers for a route through hops that pass cells on. The first hop's layer is put on last
and so is outermost. -/
def relayOrder (hops : List OpenHop) : List UInt32 :=
  (hops.map (·.session)).reverse

/-- A tunnel; its last hop is the destination. -/
structure Tunnel where
  id : UInt32
  mode : TunnelMode
  hops : List OpenHop
  hostkey : Bytes
  deriving DecidableEq

namespace Tunnel

/-- The sessions with the hops. -/
def sessions (t : Tunnel) : List UInt32 := t.hops.map (·.session)

/-- The layers of what goes through the tunnel, in the order in which they are put on. -/
def layers (t : Tunnel) : List UInt32 :=
  match t.mode with
  | .direct => t.sessions
  | .relayed => relayOrder t.hops

/-- The hop that the owner sends cells to. -/
def first? (t : Tunnel) : Option OpenHop := t.hops.head?

/-- The hop where payloads end. -/
def destination? (t : Tunnel) : Option OpenHop := t.hops.getLast?

end Tunnel

/-- What an identifier of a tunnel stands for. -/
inductive Slot where
  | building
  | ready (tunnel : Tunnel)
  deriving DecidableEq

/-- The tunnels of one owner. -/
structure TunnelTable where
  slots : Table UInt32 Slot
  ids : IdPool

namespace TunnelTable

/-- The table without tunnels. -/
def empty (ids : IdPool) : TunnelTable := ⟨.empty, ids⟩

/-- Takes an identifier that no tunnel has, ready or not. -/
def reserve (t : TunnelTable) : Except IdExhausted UInt32 × TunnelTable :=
  match t.ids.allocate t.slots.contains with
  | (.ok id, ids) => (.ok id, ⟨t.slots.insert id .building, ids⟩)
  | (.error e, ids) => (.error e, ⟨t.slots, ids⟩)

/-- Makes a tunnel ready under its own identifier. -/
def complete (t : TunnelTable) (tunnel : Tunnel) : TunnelTable :=
  { t with slots := t.slots.insert tunnel.id (.ready tunnel) }

/-- Gives an identifier back unless its tunnel is ready. -/
def abandon (t : TunnelTable) (id : UInt32) : TunnelTable :=
  match t.slots.get? id with
  | some .building => { t with slots := t.slots.erase id }
  | _ => t

/-- The ready tunnel with an identifier. -/
def get? (t : TunnelTable) (id : UInt32) : Option Tunnel :=
  match t.slots.get? id with
  | some (.ready tunnel) => some tunnel
  | _ => none

/-- Takes out the ready tunnel with an identifier, if there is one. -/
def take (t : TunnelTable) (id : UInt32) : Option Tunnel × TunnelTable :=
  match t.slots.get? id with
  | some (.ready tunnel) => (some tunnel, { t with slots := t.slots.erase id })
  | _ => (none, t)

/-- The table after the ready tunnel with an identifier has been taken out. -/
def remove (t : TunnelTable) (id : UInt32) : TunnelTable := (t.take id).2

/-- The number of ready tunnels. -/
def size (t : TunnelTable) : Nat :=
  (t.slots.values.filter fun s => s ≠ .building).length

end TunnelTable

end OnionTunnel
