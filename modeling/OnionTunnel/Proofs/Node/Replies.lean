import OnionTunnel.Proofs.Message.Grammar
import OnionTunnel.Proofs.Network.Loopback
import OnionTunnel.Proofs.Node.Contacts

/-!
# Replies fit their frames

A connection ends without a word where a reply cannot be written. No service gives such a reply: what
it puts in one has come in a message that was read off a frame, with at least as much beside it, or
has been measured, or is as short as the blocks of a key.

`Given` says of a program what is true of its end, whatever the node has become at any of its steps
and whatever its messages bring back, as long as that was read off frames. Only what limits a reply
is followed: of anything else that a program does, `Given.any` says that nothing need be known.

## Implementation notes

A sampled peer need not have come in a message, so nothing is assumed of what comes of asking for
one.
-/

namespace OnionTunnel

namespace Message

/-- A message that has been read off a frame. -/
def Decoded (m : Message) : Prop := ∃ b, decode b = .ok m

/-- A message that is written as a frame, and the frame is read. -/
def Sendable (m : Message) : Prop := ∃ f m', m.encode = .ok f ∧ decode f = .ok m'

theorem Decoded.payloadLength_le {m : Message} (h : m.Decoded) : m.payloadLength ≤ maxPayload := by
  obtain ⟨b, hb⟩ := h
  exact (fits_of_encode (encode_of_decode hb).1).1

theorem Sendable.of_plain {m : Message} (hplain : m.isPlain = true)
    (hfit : m.payloadLength ≤ maxPayload) : m.Sendable := by
  have htransmit := transmit_of_plain hplain hfit
  obtain ⟨f, hf⟩ := encode_of_transmit htransmit
  rw [transmit, hf] at htransmit
  exact ⟨f, _, hf, htransmit⟩

/-- A message without addresses is read as it was written. -/
theorem Decoded.of_plain {m : Message} (hplain : m.isPlain = true)
    (hfit : m.payloadLength ≤ maxPayload) (hcanonical : m.canonical = m) : m.Decoded := by
  have htransmit := transmit_of_plain hplain hfit
  obtain ⟨f, hf⟩ := encode_of_transmit htransmit
  rw [transmit, hf, hcanonical] at htransmit
  exact ⟨f, htransmit⟩

end Message

/-- A reply, if there is one, is written as a frame, and the frame is read. -/
def Sends (reply? : Option Message) : Prop := ∀ reply, reply? = some reply → reply.Sendable

theorem Sends.none : Sends none := nofun

theorem Sends.some {reply : Message} (h : reply.Sendable) : Sends (some reply) := by
  rintro _ ⟨⟩
  exact h

/-! ### Session requests -/

namespace SessionRegistry

open SessionRegistry.Action (Grants)

variable {now : Instant}

theorem fitting_grants (payload : Bytes) :
    Grants (fitting payload) fun p => 4 + p.length ≤ maxPayload := by
  intro r p hp
  obtain ⟨-, ⟨hok, hfit⟩ | ⟨⟨e, he⟩, -⟩, -⟩ := fitting_ensures payload r rfl rfl
  · obtain rfl := Except.ok.inj (hp.symm.trans hok)
    rwa [layerReplyHeader, Nat.add_comm] at hfit
  · exact (ok_ne_error hp he).elim

/-- A layered text goes into a reply only if there is room for it. -/
theorem fitting_sends {x : Action Bytes} (make : Bytes → Message)
    (hplain : ∀ p, (make p).isPlain = true) (hlength : ∀ p, (make p).payloadLength = 4 + p.length) :
    Grants (do return some (make (← fitting (← x)))) Sends := by
  refine Grants.bind (.any _) ?_
  intro text _
  refine (fitting_grants text).bind ?_
  intro p hp
  exact .pure (.some (.of_plain (hplain p) (Nat.le_trans (Nat.le_of_eq (hlength p)) hp)))

/-- What is true of all that a request's action can give, and of a refusal, is true of the reply. -/
theorem handle_of_grants {m : Message} {P : Option Message → Prop} (h : Grants (dispatch now m) P)
    (hdeclined : P (some .sessionDeclined)) (r : SessionRegistry) : P (r.handle now m).1 := by
  rw [handle_eq]
  split
  · next reply r' heq => exact h r reply (by rw [heq])
  · exact hdeclined

theorem sends_declined : Sends (some .sessionDeclined) := .some (.of_plain rfl (by decide))

theorem handle_sends (now : Instant) (m : Message) (r : SessionRegistry) :
    Sends (r.handle now m).1 := by
  cases m with
  | sessionStart hostkey =>
    obtain ⟨-, ⟨id, handshake, x, hreply, -, -, hoffered⟩ | ⟨hreply, -⟩⟩ :=
      @replies_sessionStart now r hostkey
    · rw [hreply]
      refine .some (.of_plain rfl ?_)
      exact Nat.le_trans (Nat.add_le_add_left hoffered.length_le 4) (by decide)
    · rw [hreply]
      exact sends_declined
  | incomingHandshake1 hostkey handshake =>
    obtain ⟨-, ⟨id, returned, y, hreply, -, -, hanswered⟩ | ⟨hreply, -⟩⟩ :=
      @replies_incomingHandshake1 now r hostkey handshake
    · rw [hreply]
      refine .some (.of_plain rfl ?_)
      exact Nat.le_trans (Nat.add_le_add_left hanswered.length_le 4) (by decide)
    · rw [hreply]
      exact sends_declined
  | incomingHandshake2 id handshake =>
    refine handle_of_grants ?_ sends_declined r
    refine Grants.bind (.any _) ?_
    intro block _
    refine Grants.bind (.any _) ?_
    intro _ _
    exact .pure (.some (.of_plain rfl (by decide)))
  | layerEncrypt request ids payload =>
    exact handle_of_grants (fitting_sends (.layerEncrypted request) (fun _ => rfl) fun _ => rfl)
      sends_declined r
  | layerDecrypt request ids payload =>
    exact handle_of_grants (fitting_sends (.layerDecrypted request) (fun _ => rfl) fun _ => rfl)
      sends_declined r
  | sessionClose id => exact .none
  | _ => exact .none

end SessionRegistry

/-! ### What a program is given -/

namespace Node

variable {α β : Type} {Q : α → Prop} {R : β → Prop} {dest : Address} {m : Message}

/-- What a message brings back, if it is a message, has been read off a frame. What comes of asking
for a random peer is left open. -/
def Brings (m : Message) (o : Outcome) : Prop :=
  m ≠ .rpsQuery → ∀ reply, o = .ok (some reply) → reply.Decoded

/-- Surroundings that bring back what was read off frames. All of the node may have changed by
then. -/
def legible : Surroundings := fun _ _ m o _ => Brings m o

/-- Whatever messages bring back that has been read off frames, and whatever the node has become, a
statement is true of what a program ends with. -/
inductive Given {α : Type} (Q : α → Prop) : Program Node α → Prop
  | done {a : α} (h : Q a) : Given Q (.done a)
  | read {k : Instant → Node → Program Node α} (h : ∀ now n, Given Q (k now n)) : Given Q (.read k)
  | write {s : Node} {p : Program Node α} (h : Given Q p) : Given Q (.write s p)
  | send {dest : Address} {m : Message} {limit : Option Duration} {k : Outcome → Program Node α}
      (h : ∀ o, Brings m o → Given Q (k o)) : Given Q (.send dest m limit k)

/-- Whatever is given to it, a statement is true of what an action gives if it succeeds. -/
def ActsGiven (Q : α → Prop) (x : Action α) : Prop :=
  Given (fun res => ∀ a, res = .ok a → Q a) x.run

/-- A program that has come to its end has come to one of which the statement is true. -/
theorem Given.goes {p : Program Node α} (hp : Given Q p) {n n' : Node} {t : List Contact} {a : α}
    (h : Goes legible p n t (some a) n') : Q a := by
  induction hp generalizing n t with
  | done ha =>
    cases h
    exact ha
  | read _ ih =>
    cases h with
    | read now h => exact ih now n h
  | write _ ih =>
    cases h with
    | write h => exact ih h
  | send _ ih =>
    cases h with
    | send o he h => exact ih o he h

/-! ### Rules -/

theorem Given.any (p : Program Node α) : Given (fun _ => True) p := by
  induction p with
  | done a => exact .done trivial
  | read k ih => exact .read ih
  | write s p ih => exact .write ih
  | send dest m limit k ih => exact .send fun o _ => ih o

theorem Given.mono {Q' : α → Prop} {p : Program Node α} (hp : Given Q p) (h : ∀ a, Q a → Q' a) :
    Given Q' p := by
  induction hp with
  | done ha => exact .done (h _ ha)
  | read _ ih => exact .read ih
  | write _ ih => exact .write ih
  | send _ ih => exact .send ih

theorem Given.pure {a : α} (h : Q a) : Given Q (Pure.pure a) := .done h

/-- One program after another. -/
theorem Given.bind {p : Program Node α} {f : α → Program Node β} (hp : Given Q p)
    (hf : ∀ a, Q a → Given R (f a)) : Given R (p >>= f) := by
  show Given R (p.bind f)
  induction hp with
  | done ha => exact hf _ ha
  | read _ ih => exact .read ih
  | write _ ih => exact .write ih
  | send _ ih => exact .send ih

theorem ActsGiven.any (x : Action α) : ActsGiven (fun _ => True) x :=
  (Given.any x.run).mono fun _ _ _ _ => trivial

theorem ActsGiven.pure {a : α} (h : Q a) : ActsGiven Q (Pure.pure a) := by
  apply Given.done
  rintro _ ⟨⟩
  exact h

theorem ActsGiven.throw (e : TunnelError) : ActsGiven Q (throw e : Action α) := .done fun _ => nofun

/-- One action after another. -/
theorem ActsGiven.bind {x : Action α} {f : α → Action β} (hx : ActsGiven Q x)
    (hf : ∀ a, Q a → ActsGiven R (f a)) : ActsGiven R (x >>= f) := by
  refine Given.bind hx ?_
  rintro (e | a) hres
  · exact .done fun _ => nofun
  · exact hf a (hres a rfl)

/-- An action after another of which nothing need be known. -/
theorem ActsGiven.after (x : Action α) {f : α → Action β} (hf : ∀ a, ActsGiven R (f a)) :
    ActsGiven R (x >>= f) :=
  (ActsGiven.any x).bind fun a _ => hf a

/-! ### What limits a reply -/

/-- The bytes fit a frame with four others before them. -/
def Fitting (p : Bytes) : Prop := 4 + p.length ≤ maxPayload

theorem given_request (limit : Option Duration) (hm : m ≠ .rpsQuery) :
    ActsGiven Message.Decoded (request limit dest m) := by
  have hexchange : ActsGiven (Brings m) (liftM (Program.exchange limit dest m : Program Node Outcome)) :=
    .send fun o ho => .done (by rintro _ ⟨⟩; exact ho)
  refine hexchange.bind ?_
  rintro (e | _ | reply) ho
  · exact .throw _
  · exact .throw _
  · exact .pure (ho hm reply rfl)

theorem given_askSessions (hm : m ≠ .rpsQuery) : ActsGiven Message.Decoded (askSessions m) :=
  .after _ fun _ => given_request none hm

theorem given_acceptSession (hostkey handshake : Bytes) :
    ActsGiven (fun a => Fitting a.2) (acceptSession hostkey handshake) := by
  refine (given_askSessions ?_).bind ?_
  · exact nofun
  intro reply hreply
  split
  · exact .pure hreply.payloadLength_le
  · exact .throw _

theorem given_matching {payload : Bytes} (h : Fitting payload) (expected actual : UInt16) :
    ActsGiven Fitting (matching expected actual payload) := by
  unfold matching
  split
  · exact .pure h
  · exact .throw _

theorem given_encryptLayers (ids : List UInt32) (payload : Bytes) :
    ActsGiven Fitting (encryptLayers ids payload) := by
  refine .after _ fun number => ?_
  refine (given_askSessions ?_).bind ?_
  · exact nofun
  intro reply hreply
  split
  · exact given_matching hreply.payloadLength_le _ _
  · exact .throw _

theorem given_decryptLayers (ids : List UInt32) (payload : Bytes) :
    ActsGiven Fitting (decryptLayers ids payload) := by
  refine .after _ fun number => ?_
  refine (given_askSessions ?_).bind ?_
  · exact nofun
  intro reply hreply
  split
  · exact given_matching hreply.payloadLength_le _ _
  · exact .throw _

theorem given_exchangeData (id : UInt32) (payload : Bytes) :
    ActsGiven Fitting (exchangeData id payload) := by
  refine .after _ fun layered => ?_
  refine .after _ fun tunnel => ?_
  exact given_decryptLayers _ _

theorem given_acceptHandshake (hostkey handshake : Bytes) :
    ActsGiven (fun a => Fitting a.2) (acceptHandshake hostkey handshake) := by
  refine (given_acceptSession hostkey handshake).bind ?_
  rintro ⟨id, returned⟩ hfit
  refine .after _ fun _ => ?_
  refine .after _ fun _ => ?_
  exact .pure hfit

/-- Whatever the sink or the next hop has given, the layer that a hop puts on has been given by its
session service. -/
theorem given_handleCell (id : UInt32) (data : Bytes) : ActsGiven Fitting (handleCell id data) := by
  refine .after _ fun n => ?_
  split
  · exact .throw _
  · refine .after _ fun peeled => ?_
    dsimp only
    split
    · exact .after _ fun reply => given_encryptLayers _ reply
    · exact .after _ fun reply => given_encryptLayers _ reply

/-! ### Services -/

theorem sends_failure (request : Kind) (tunnel : UInt32) : Sends (some (failure request tunnel)) :=
  .some (.of_plain rfl (show 8 ≤ maxPayload by decide))

theorem given_answerSessions (m : Message) : Given Sends (answerSessions m) :=
  .read fun now _ => .read fun _ n => .write (.done (SessionRegistry.handle_sends now m n.registry))

theorem given_answerClients (hm : m.Decoded) : Given Sends (answerClients m) := by
  have hlength := hm.payloadLength_le
  cases m with
  | tunnelBuild destination hostkey =>
    refine (Given.any _).bind ?_
    rintro (e | id) -
    · exact .pure (sends_failure _ _)
    · refine .pure (.some (.of_plain rfl ?_))
      simp only [Message.payloadLength] at hlength ⊢
      omega
  | tunnelData id payload =>
    refine Given.bind (given_exchangeData id payload) ?_
    rintro (e | reply) hreply
    · exact .pure (sends_failure _ _)
    · exact .pure (.some (.of_plain rfl (hreply reply rfl)))
  | tunnelDestroy id =>
    refine (Given.any _).bind ?_
    rintro (e | _) -
    · exact .pure (sends_failure _ _)
    · exact .pure .none
  | cover size => exact .pure (sends_failure _ _)
  | _ => exact .pure .none

theorem given_answerPeers (m : Message) : Given Sends (answerPeers m) := by
  cases m with
  | incomingHandshake1 hostkey handshake =>
    refine Given.bind (given_acceptHandshake hostkey handshake) ?_
    rintro (e | ⟨link, returned⟩) haccepted
    · exact .pure (sends_failure _ _)
    · exact .pure (.some (.of_plain rfl (haccepted _ rfl)))
  | tunnelData link data =>
    refine Given.bind (given_handleCell link data) ?_
    rintro (e | reply) hreply
    · exact .pure (sends_failure _ _)
    · exact .pure (.some (.of_plain rfl (hreply reply rfl)))
  | tunnelDestroy link =>
    refine (Given.any _).bind ?_
    intro _ _
    exact .pure .none
  | _ => exact .pure .none

/-- A service answers a message that was read off a frame. Whatever the node is and whatever it
becomes meanwhile, whatever its sink and its sampler give, and whatever is brought back to it that
was read off frames, a reply is written as a frame, and the frame is read. -/
theorem reply_sendable {s : Service} {m reply : Message} {n n' : Node} {t : List Contact}
    (hm : m.Decoded) (h : Goes legible (answer s m) n t (some (some reply)) n') :
    ∃ f m', reply.encode = .ok f ∧ Message.decode f = .ok m' := by
  have hgiven : Given Sends (answer s m) := by
    cases s with
    | sessions => exact given_answerSessions m
    | clients => exact given_answerClients hm
    | peers => exact given_answerPeers m
  exact hgiven.goes h reply rfl

/-- A node that another one has opened a link to. -/
def linkedNode : Node :=
  { loopNode with links := loopNode.links.accept 1 (.ofHostkey loopNode.hostkey) }

/-- The command that hands an empty payload to the sink. -/
def endCommand : Bytes := (Message.tunnelData endLink []).encode.toOption.getD []

/-- A session service that peels every cell to that command and gives the same bytes for every
layer. -/
def layeringTo (layered : Bytes) (_ : Address) : Message → Outcome
  | .layerDecrypt number _ _ => .ok (some (.layerDecrypted number endCommand))
  | .layerEncrypt number _ _ => .ok (some (.layerEncrypted number layered))
  | _ => .ok none

theorem follow_layeringTo (layered : Bytes) :
    (follow (layeringTo layered) (answer .peers (.tunnelData 1 [])) linkedNode).2.1 =
      some (.tunnelData 1 layered) := rfl

theorem brings_layeringTo {layered : Bytes} (h : Fitting layered) (dest : Address) (m : Message) :
    Brings m (layeringTo layered dest m) := by
  intro _ reply hreply
  unfold layeringTo at hreply
  split at hreply
  · obtain rfl := Option.some.inj (Except.ok.inj hreply)
    exact .of_plain rfl (show 4 + endCommand.length ≤ maxPayload by decide +kernel) rfl
  · obtain rfl := Option.some.inj (Except.ok.inj hreply)
    exact .of_plain rfl h rfl
  · cases hreply

/-- The largest layer that a session service can give goes into a reply that fills its frame. -/
theorem reply_sendable_filling :
    ∃ (t : List Contact) (n' : Node) (layered : Bytes),
      Goes legible (answer .peers (.tunnelData 1 [])) linkedNode t
        (some (some (.tunnelData 1 layered))) n' ∧
      ∃ f m', (Message.tunnelData 1 layered).encode = .ok f ∧ Message.decode f = .ok m' ∧
        f.length = maxFrame := by
  have hfit : Fitting (List.replicate 65527 0) := by
    rw [Fitting, List.length_replicate]
    decide
  have hanswer : ∀ n dest m, legible n dest m (layeringTo (List.replicate 65527 0) dest m) n :=
    fun _ => brings_layeringTo hfit
  have hrun := Goes.of_rule hanswer (answer .peers (.tunnelData 1 [])) linkedNode
  rw [follow_layeringTo] at hrun
  have hm : (Message.tunnelData 1 []).Decoded := .of_plain rfl (by decide) rfl
  obtain ⟨f, m', hencode, hdecode⟩ := reply_sendable hm hrun
  refine ⟨_, _, _, hrun, f, m', hencode, hdecode, ?_⟩
  rw [Message.length_of_encode hencode, Message.payloadLength, List.length_replicate]
  rfl

end Node

end OnionTunnel
