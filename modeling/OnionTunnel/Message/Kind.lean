/-!
# Message kinds

Each kind of message has a code on the wire and a protocol name. Codes 500 to 503, 520 and 521
belong to modules a node never talks to; they are unregistered like every other code not listed
here.
-/

namespace OnionTunnel

/-- What a message is about. -/
inductive Kind where
  | rpsQuery
  | rpsPeer
  | tunnelBuild
  | tunnelReady
  | tunnelIncoming
  | tunnelDestroy
  | tunnelData
  | tunnelError
  | cover
  | tunnelExtend
  | sessionStart
  | sessionHandshake1
  | incomingHandshake1
  | sessionHandshake2
  | incomingHandshake2
  | layerEncrypt
  | layerEncrypted
  | layerDecrypt
  | layerDecrypted
  | sessionClose
  | handshake1
  | handshake2
  | sessionConfirmed
  | sessionDeclined
  deriving DecidableEq, Repr

namespace Kind

/-- Every kind, in the order of the codes. -/
def all : List Kind :=
  [rpsQuery, rpsPeer, tunnelBuild, tunnelReady, tunnelIncoming, tunnelDestroy, tunnelData,
    tunnelError, cover, tunnelExtend, sessionStart, sessionHandshake1, incomingHandshake1,
    sessionHandshake2, incomingHandshake2, layerEncrypt, layerEncrypted, layerDecrypt,
    layerDecrypted, sessionClose, handshake1, handshake2, sessionConfirmed, sessionDeclined]

/-- The code of a kind on the wire. -/
def code : Kind → UInt16
  | rpsQuery => 540
  | rpsPeer => 541
  | tunnelBuild => 560
  | tunnelReady => 561
  | tunnelIncoming => 562
  | tunnelDestroy => 563
  | tunnelData => 564
  | tunnelError => 565
  | cover => 566
  | tunnelExtend => 567
  | sessionStart => 600
  | sessionHandshake1 => 601
  | incomingHandshake1 => 602
  | sessionHandshake2 => 603
  | incomingHandshake2 => 604
  | layerEncrypt => 605
  | layerEncrypted => 606
  | layerDecrypt => 607
  | layerDecrypted => 608
  | sessionClose => 609
  | handshake1 => 700
  | handshake2 => 701
  | sessionConfirmed => 702
  | sessionDeclined => 703

/-- The protocol name of a kind. -/
def name : Kind → String
  | rpsQuery => "RPS_QUERY"
  | rpsPeer => "RPS_PEER"
  | tunnelBuild => "ONION_TUNNEL_BUILD"
  | tunnelReady => "ONION_TUNNEL_READY"
  | tunnelIncoming => "ONION_TUNNEL_INCOMING"
  | tunnelDestroy => "ONION_TUNNEL_DESTROY"
  | tunnelData => "ONION_TUNNEL_DATA"
  | tunnelError => "ONION_ERROR"
  | cover => "ONION_COVER"
  | tunnelExtend => "ONION_TUNNEL_EXTEND"
  | sessionStart => "AUTH_SESSION_START"
  | sessionHandshake1 => "AUTH_SESSION_HS1"
  | incomingHandshake1 => "AUTH_SESSION_INCOMING_HS1"
  | sessionHandshake2 => "AUTH_SESSION_HS2"
  | incomingHandshake2 => "AUTH_SESSION_INCOMING_HS2"
  | layerEncrypt => "AUTH_LAYER_ENCRYPT"
  | layerEncrypted => "AUTH_LAYER_ENCRYPT_RESP"
  | layerDecrypt => "AUTH_LAYER_DECRYPT"
  | layerDecrypted => "AUTH_LAYER_DECRYPT_RESP"
  | sessionClose => "AUTH_SESSION_CLOSE"
  | handshake1 => "AUTH_HANDSHAKE1"
  | handshake2 => "AUTH_HANDSHAKE2"
  | sessionConfirmed => "AUTH_SESSION_CONFIRMED"
  | sessionDeclined => "AUTH_SESSION_DECLINED"

/-- The kind registered under a code. -/
def ofCode? (code : UInt16) : Option Kind :=
  all.find? fun k => k.code = code

/-- The kind with a protocol name. -/
def ofName? (name : String) : Option Kind :=
  all.find? fun k => k.name = name

/-- The text of a kind: its name and its code. -/
def text (k : Kind) : String :=
  s!"{k.name}({k.code.toNat})"

/-- Every kind is listed. -/
theorem mem_all (k : Kind) : k ∈ all := by
  cases k <;> decide

/-- A kind is found under its own code. -/
@[simp] theorem ofCode?_code (k : Kind) : ofCode? k.code = some k := by
  cases k <;> decide

/-- A code that finds a kind is that kind's code. -/
theorem code_of_ofCode? {c : UInt16} {k : Kind} (h : ofCode? c = some k) : k.code = c := by
  simpa using List.find?_some h

end Kind

end OnionTunnel
