import OnionTunnel.Address
import OnionTunnel.Identity
import OnionTunnel.Table

/-!
# The peer directory

A node remembers where peers can be reached and which peer holds the other end of a session. Both
are caches. The address of a peer that a session is bound to is not forgotten.
-/

namespace OnionTunnel

/-- Addresses of peers, and peers of sessions. -/
structure PeerDirectory where
  addresses : Table Identity Address
  sessions : Table UInt32 Identity

namespace PeerDirectory

/-- The directory that knows nothing. -/
def empty : PeerDirectory := ⟨Table.empty, Table.empty⟩

instance : Inhabited PeerDirectory := ⟨empty⟩

/-- Remembers where a peer can be reached. -/
def rememberPeer (d : PeerDirectory) (peer : Identity) (address : Address) : PeerDirectory :=
  { d with addresses := d.addresses.insert peer address }

/-- Where a peer can be reached. -/
def addressOf? (d : PeerDirectory) (peer : Identity) : Option Address :=
  d.addresses.get? peer

/-- A peer that can be reached at an address. -/
def identityAt? (d : PeerDirectory) (address : Address) : Option Identity :=
  (d.addresses.entries.find? fun e => e.2 = address).map (·.1)

/-- Records who holds the other end of a session. -/
def bindSession (d : PeerDirectory) (session : UInt32) (peer : Identity) : PeerDirectory :=
  { d with sessions := d.sessions.insert session peer }

/-- Who holds the other end of a session. -/
def identityOf? (d : PeerDirectory) (session : UInt32) : Option Identity :=
  d.sessions.get? session

/-- Forgets a session. -/
def forgetSession (d : PeerDirectory) (session : UInt32) : PeerDirectory :=
  { d with sessions := d.sessions.erase session }

/-- Whether a session is bound to a peer. -/
def isBound (d : PeerDirectory) (peer : Identity) : Bool :=
  d.sessions.values.any (· = peer)

/-- The address that goes when a peer is forgotten. -/
def forgettable? (d : PeerDirectory) (peer : Identity) : Option Address :=
  if d.isBound peer then none else d.addressOf? peer

/-- Forgets where a peer can be reached, unless a session is bound to it. -/
def forgetPeer (d : PeerDirectory) (peer : Identity) : PeerDirectory :=
  if d.isBound peer then d else { d with addresses := d.addresses.erase peer }

/-- The number of peers with an address. -/
def peerCount (d : PeerDirectory) : Nat := d.addresses.size

/-- The number of sessions bound to a peer. -/
def sessionCount (d : PeerDirectory) : Nat := d.sessions.size

@[simp] theorem identityOf?_bindSession_self (d : PeerDirectory) (session : UInt32)
    (peer : Identity) : (d.bindSession session peer).identityOf? session = some peer :=
  d.sessions.get?_insert_self session peer

/-- Binding one session leaves the others bound as they were. -/
theorem identityOf?_bindSession_of_ne (d : PeerDirectory) {id session : UInt32} (peer : Identity)
    (h : id ≠ session) : (d.bindSession session peer).identityOf? id = d.identityOf? id :=
  d.sessions.get?_insert_of_ne peer h

@[simp] theorem identityOf?_forgetSession_self (d : PeerDirectory) (session : UInt32) :
    (d.forgetSession session).identityOf? session = none :=
  d.sessions.get?_erase_self session

/-- Forgetting one session leaves the others bound as they were. -/
theorem identityOf?_forgetSession_of_ne (d : PeerDirectory) {id session : UInt32}
    (h : id ≠ session) : (d.forgetSession session).identityOf? id = d.identityOf? id :=
  d.sessions.get?_erase_of_ne h

@[simp] theorem identityOf?_rememberPeer (d : PeerDirectory) (peer : Identity) (address : Address)
    (id : UInt32) : (d.rememberPeer peer address).identityOf? id = d.identityOf? id := rfl

@[simp] theorem identityOf?_forgetPeer (d : PeerDirectory) (peer : Identity) (id : UInt32) :
    (d.forgetPeer peer).identityOf? id = d.identityOf? id := by
  unfold forgetPeer
  split <;> rfl

end PeerDirectory

end OnionTunnel
