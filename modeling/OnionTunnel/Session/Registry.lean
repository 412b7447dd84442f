import OnionTunnel.Cipher.Sealed
import OnionTunnel.Hostkey.Keypair
import OnionTunnel.PeerDirectory
import OnionTunnel.Session.Error

/-!
# The session registry

A registry holds the sessions of one node by identifier. Starting a session takes two steps with
work between them: `reserve` takes an identifier and stores the session, `finishStart` moves it on.
Confirming one takes two as well: `checkConfirm` looks whether the second handshake would fit,
`commitConfirm` stores what it brought. Other operations may come between the two.

Every operation is an `Action`: it may fail, and what it changed before that stays changed.
-/

namespace OnionTunnel

/-- One session as its node holds it. The peer's tag key is known once the session is
established. -/
structure Session where
  handshake : Session.Handshake
  peer : Identity
  sharedKey : Bytes
  localMac : Bytes
  remoteMac? : Option Bytes
  lastActivity : Instant

namespace Session

/-- A session that nothing has been sent in. -/
def fresh (now : Instant) (role : Role) (peer : Identity) (sharedKey localMac : Bytes) : Session where
  handshake := .fresh role
  peer := peer
  sharedKey := sharedKey
  localMac := localMac
  remoteMac? := none
  lastActivity := now

/-- Whether a session can carry layers. -/
def isEstablished (s : Session) : Bool := s.handshake.state = .established

/-- The session after an event. -/
def step (s : Session) (event : Event) : Except HandshakeFault Session := do
  return { s with handshake := ← s.handshake.step event }

end Session

/-- The sessions of one node, with everything that starting one takes. -/
structure SessionRegistry where
  keypair : Keypair
  sessions : Table UInt32 Session
  ids : IdPool
  directory : PeerDirectory
  tape : Tape

namespace SessionRegistry

/-- The registry without sessions. -/
def empty (keypair : Keypair) (ids : IdPool) (tape : Tape) : SessionRegistry where
  keypair := keypair
  sessions := .empty
  ids := ids
  directory := .empty
  tape := tape

/-- An operation on a registry that may fail. -/
abbrev Action := ExceptT SessionError (StateM SessionRegistry)

/-- The length of new keys. -/
def keyLength : Nat := 16

/-- The next bytes of the tape. -/
def draw (n : Nat) : Action Bytes :=
  modifyGet fun r => let (b, tape) := r.tape.draw n; (b, { r with tape := tape })

/-- The next bytes of the tape, none of them zero. -/
def drawNonZero (n : Nat) : Action Bytes :=
  modifyGet fun r => let (b, tape) := r.tape.drawNonZero n; (b, { r with tape := tape })

/-- An identifier that no session has. -/
def allocate : Action UInt32 := do
  let (id, ids) := (← get).ids.allocate (← get).sessions.contains
  modify fun r => { r with ids := ids }
  match id with
  | .ok id => return id
  | .error e => throw (.exhausted e)

/-- Stores a session. -/
def store (id : UInt32) (s : Session) : Action Unit :=
  modify fun r => { r with sessions := r.sessions.insert id s }

/-- The session with an identifier. -/
def lookup (id : UInt32) : Action Session := do
  match (← get).sessions.get? id with
  | some s => return s
  | none => throw (.notFound id)

/-- The session after an event. -/
def advance (id : UInt32) (s : Session) (event : Session.Event) : Action Session :=
  match s.step event with
  | .ok s => return s
  | .error fault => throw (.invalidState id fault)

/-- Records who holds the other end of an established session. -/
def bindSession (id : UInt32) (peer : Identity) : Action Unit :=
  modify fun r => { r with directory := r.directory.bindSession id peer }

/-- The key that a peer presents. -/
def presented (hostkey : Bytes) : Action Rsa.PublicKey :=
  match Hostkey.parse hostkey with
  | .ok key => return key
  | .error e => throw (.ofHostkeyError e)

/-- Seals a message in a block for a peer. -/
def sealFor (key : Rsa.PublicKey) (message : Bytes) : Action Bytes := do
  match key.encrypt (← drawNonZero (key.fillerLength message)) message with
  | .ok block => return block
  | .error e => throw (.cipher e)

/-- Opens a block sealed for this node. -/
def openBlock (block : Bytes) : Action Bytes := do
  match (← get).keypair.decrypt block with
  | .ok message => return message
  | .error e => throw (.ofBlockError e)

/-! ### Starting, accepting, confirming -/

/-- Takes an identifier and stores a session under it in which nothing has been sent. -/
def reserve (now : Instant) (peer : Identity) (sharedKey localMac : Bytes) : Action UInt32 := do
  let id ← allocate
  store id (.fresh now .initiator peer sharedKey localMac)
  return id

/-- Drops a session that could not be started. -/
def abandon (id : UInt32) : Action Unit :=
  modify fun r => { r with sessions := r.sessions.erase id }

/-- Moves a reserved session on once its first handshake is sealed. -/
def finishStart (now : Instant) (id : UInt32) : Action Unit := do
  let s ← advance id (← lookup id) .sendHandshake1
  store id { s with lastActivity := now }

/-- Starts a session with the owner of a hostkey: its identifier and the blocks of the first
handshake. -/
def start (now : Instant) (hostkey : Bytes) : Action (UInt32 × Bytes × Bytes) := do
  let key ← presented hostkey
  let sharedKey ← draw keyLength
  let localMac ← draw keyLength
  let id ← reserve now (.ofHostkey hostkey) sharedKey localMac
  let blocks ← tryCatch (do return (← sealFor key sharedKey, ← sealFor key localMac))
    fun e => do abandon id; throw e
  finishStart now id
  return (id, blocks)

/-- Stores a session that its first handshake establishes: the identifier and the block of the
second handshake. -/
def enroll (now : Instant) (key : Rsa.PublicKey) (peer : Identity) (sharedKey remoteMac : Bytes) :
    Action (UInt32 × Bytes) := do
  let localMac ← draw keyLength
  let block ← sealFor key localMac
  let id ← allocate
  let s ← advance id (.fresh now .responder peer sharedKey localMac) .receiveHandshake1
  store id { s with remoteMac? := some remoteMac }
  bindSession id peer
  return (id, block)

/-- Accepts the first handshake of the owner of a hostkey: the identifier of the session, which is
established at once, and the block of the second handshake. -/
def accept (now : Instant) (hostkey keyBlock macBlock : Bytes) : Action (UInt32 × Bytes) := do
  let key ← presented hostkey
  let sharedKey ← openBlock keyBlock
  let remoteMac ← openBlock macBlock
  if Aes.validLength sharedKey.length then
    enroll now key (.ofHostkey hostkey) sharedKey remoteMac
  else throw (.decryptionFailed (.keyLength sharedKey.length))

/-- Fails unless the second handshake would fit. -/
def checkConfirm (id : UInt32) : Action Unit := do
  let _ ← advance id (← lookup id) .receiveHandshake2

/-- Stores the peer's tag key and moves the session on; gives the peer. -/
def commitConfirm (now : Instant) (id : UInt32) (remoteMac : Bytes) : Action Identity := do
  let s ← advance id (← lookup id) .receiveHandshake2
  store id { s with remoteMac? := some remoteMac, lastActivity := now }
  return s.peer

/-- Confirms a started session with the block of the second handshake. -/
def confirm (now : Instant) (id : UInt32) (macBlock : Bytes) : Action Unit := do
  checkConfirm id
  let peer ← commitConfirm now id (← openBlock macBlock)
  bindSession id peer

/-! ### Closing -/

/-- Whether there is a session with an identifier. -/
def contains (r : SessionRegistry) (id : UInt32) : Bool := r.sessions.contains id

/-- Drops a session; an unknown identifier changes nothing. -/
def close (r : SessionRegistry) (id : UInt32) : SessionRegistry :=
  if r.contains id then
    { r with sessions := r.sessions.erase id, directory := r.directory.forgetSession id }
  else r

/-- Whether a session has been idle for longer than a span. -/
def isIdle (now : Instant) (limit : Duration) (s : Session) : Bool :=
  limit.nanoseconds < now - s.lastActivity

/-- The sessions idle for longer than a span. -/
def idle (r : SessionRegistry) (now : Instant) (limit : Duration) : List UInt32 :=
  (r.sessions.filter fun _ s => isIdle now limit s).keys

/-- Drops every session idle for longer than a span. -/
def expire (r : SessionRegistry) (now : Instant) (limit : Duration) : SessionRegistry where
  keypair := r.keypair
  sessions := r.sessions.filter fun _ s => !isIdle now limit s
  ids := r.ids
  directory := (r.idle now limit).foldl PeerDirectory.forgetSession r.directory
  tape := r.tape

/-! ### Views -/

/-- The number of sessions. -/
def size (r : SessionRegistry) : Nat := r.sessions.size

/-- A text that shows the owner and how many sessions there are. -/
def debugText (r : SessionRegistry) : String :=
  "SessionRegistry \x7b identity: " ++ r.keypair.identity.debugText ++ ", sessions: " ++
    toString r.size ++ " \x7d"

end SessionRegistry

end OnionTunnel
