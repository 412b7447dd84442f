import OnionTunnel.Proofs.Node.Alone
import OnionTunnel.Proofs.Node.Opening

/-!
# Requests of a node among others

What a node's session requests and its messages to peers come to, whatever the peers do. A session
request is no message to others and changes the sessions that it is about; a message to a peer
changes nothing.
-/

namespace OnionTunnel.Node

open Network SessionRegistry Sealed

variable {n : Node} {id link : UInt32} {ids : List UInt32} {x : Session} {xs : List Session}
  {dest : Address} {m : Message}

/-! ### Single messages -/

theorem Acts.request {limit : Option Duration} {P : List Sent → Outcome → Node → Prop}
    (h : Comes n (Program.exchange limit dest m) P) :
    Acts n (Node.request limit dest m) fun t res n' => ∃ o, P t o n' ∧ res = ofOutcome o := by
  refine Acts.after h ?_
  intro t o n' hP
  split
  · apply Acts.pure
    rw [List.append_nil]
    exact ⟨_, hP, rfl⟩
  · apply Acts.throw
    rw [List.append_nil]
    exact ⟨_, hP, rfl⟩
  · apply Acts.throw
    rw [List.append_nil]
    exact ⟨_, hP, rfl⟩

/-- A reply gets back with canonical addresses if it does. -/
theorem eq_of_received {reply : Message} (h : received (some reply) = .ok m) :
    m = reply.canonical := by
  obtain ⟨e, he⟩ | hok := reply.transmit_cases
  · rw [received, he] at h
    cases h
  · rw [received_of_transmit hok] at h
    exact (Except.ok.inj h).symm

/-- What comes of a message to a node's own session service, if it is read as it was written: the
registry answers it, or it is not written. -/
def Asked (n : Node) (m : Message) (t : List Sent) (res : Except TunnelError Message) (n' : Node) :
    Prop :=
  t = [] ∧ ((∃ e, m.transmit = .error e ∧ res = .error (.connection e)) ∧ n' = n ∨
    ∃ now, res = received (n.registry.handle now m).1 ∧
      n' = { n with registry := (n.registry.handle now m).2 })

theorem acts_request_own {limit : Option Duration} (hm : m.canonical = m) :
    Acts n (Node.request limit n.sessionService m) (Asked n m) := by
  refine (Acts.request (Comes.ask (Q := fun t o n' => t = [] ∧ ∃ now,
    o = (ownExchange now m n.registry).1 ∧
      n' = { n with registry := (ownExchange now m n.registry).2 }) ?_)).mono ?_
  · intro now
    exact ⟨rfl, now, rfl, rfl⟩
  · rintro t res n' ⟨_, ⟨ht, now, rfl, rfl⟩, rfl⟩
    refine ⟨ht, ?_⟩
    obtain ⟨e, he⟩ | hok := m.transmit_cases
    · simp only [ownExchange, he]
      exact .inl ⟨⟨e, rfl, rfl⟩, trivial⟩
    · simp only [ownExchange, hok, hm, ofOutcome_ofReply]
      exact .inr ⟨now, rfl, rfl⟩

/-- A session request that is read as it was written is answered by the node's own registry, or is
not written. -/
theorem acts_askSessions (hm : m.canonical = m) : Acts n (askSessions m) (Asked n m) :=
  Acts.get (acts_request_own hm)

/-- So is a message to a peer that turns out to be the node's own session service. -/
theorem acts_askPeer_own (hm : m.canonical = m) : Acts n (askPeer n.sessionService m) (Asked n m) :=
  Acts.get (acts_request_own hm)

/-- A message to a peer brings anything, and changes nothing. -/
theorem acts_askPeer (hother : dest ≠ n.sessionService) :
    Acts n (askPeer dest m) fun t res n' =>
      n' = n ∧ ∃ o, t = [⟨dest, m, o⟩] ∧ res = ofOutcome o := by
  apply Acts.get
  refine (Acts.request (Comes.send (Q := fun t o n' => n' = n ∧ t = [⟨dest, m, o⟩]) hother
    ?_)).mono ?_
  · intro o
    exact ⟨rfl, rfl⟩
  · rintro t res n' ⟨o, ⟨rfl, ht⟩, hres⟩
    exact ⟨rfl, o, ht, hres⟩

/-! ### Sessions -/

/-- Starting a session puts a waiting session under a number that no session had, or leaves all as
it was. -/
theorem acts_startSession (hostkey : Bytes) :
    Acts n (startSession hostkey) fun t res n' => t = [] ∧
      ((∃ id handshake x, res = .ok (id, handshake) ∧ n.registry.sessions.get? id = none ∧
          SameBut [id] n n' ∧ n'.registry.holdings id = some x ∧
          Offered (fun _ => False) hostkey x handshake) ∨
        (∃ e, res = .error e) ∧ SameBut [] n n') := by
  refine Acts.bind (P := fun t res n' => t = [] ∧
    ((∃ id handshake x, res = .ok (.sessionHandshake1 id handshake) ∧
        n.registry.sessions.get? id = none ∧ SameBut [id] n n' ∧
        n'.registry.holdings id = some x ∧ Offered (fun _ => False) hostkey x handshake) ∨
      (res = .ok .sessionDeclined ∨ ∃ e, res = .error e) ∧ SameBut [] n n')) ?_ ?_ ?_
  · refine (acts_askSessions rfl).mono ?_
    rintro t res n' ⟨ht, ⟨⟨e, -, rfl⟩, rfl⟩ | ⟨now, rfl, rfl⟩⟩
    · exact ⟨ht, .inr ⟨.inr ⟨_, rfl⟩, .refl [] n'⟩⟩
    · obtain ⟨id, handshake, x, hreply, hfree, hleft, hheld, hoffered⟩ | ⟨hreply, hleft⟩ :=
        handle_sessionStart now hostkey n.registry
      · refine ⟨ht, .inl ⟨id, handshake, x, ?_, hfree, ?_, hheld, hoffered.mono fun _ => False.elim⟩⟩
        · rw [hreply]
          apply received_of_plain rfl
          exact Nat.le_trans (Nat.add_le_add_left hoffered.length_le 4) (by decide)
        · exact .of_registry (hleft.mono (List.Subset.refl _) (List.nil_subset _))
      · refine ⟨ht, .inr ⟨.inl ?_, .of_registry hleft⟩⟩
        rw [hreply]
        exact received_of_plain rfl (by decide)
  · rintro _ m n' ⟨rfl, ⟨id, handshake, x, ⟨⟩, h⟩ | ⟨⟨⟨⟩⟩ | ⟨_, ⟨⟩⟩, h⟩⟩
    · exact Acts.pure ⟨rfl, .inl ⟨id, handshake, x, rfl, h⟩⟩
    · exact Acts.throw ⟨rfl, .inr ⟨⟨_, rfl⟩, h⟩⟩
  · rintro t e n' ⟨ht, ⟨_, _, _, ⟨⟩, _⟩ | ⟨-, h⟩⟩
    exact ⟨ht, .inr ⟨⟨e, rfl⟩, h⟩⟩

/-- Confirming a session that waits establishes it, or fails. -/
theorem acts_confirmSession (hx : n.registry.holdings id = some x)
    (hwaits : x.handshake = ⟨.initiator, .awaitingConfirm⟩) (returned : Bytes) :
    Acts n (confirmSession id returned) fun t res n' => t = [] ∧ SameBut [id] n n' ∧
      ((∃ mac, res = .ok () ∧ n'.registry.holdings id = some (confirmed x mac)) ∨
        ∃ e, res = .error e) := by
  refine Acts.bind (P := fun t res n' => t = [] ∧ SameBut [id] n n' ∧
    ((∃ mac, res = .ok .sessionConfirmed ∧ n'.registry.holdings id = some (confirmed x mac)) ∨
      res = .ok .sessionDeclined ∨ ∃ e, res = .error e)) ?_ ?_ ?_
  · refine (acts_askSessions rfl).mono ?_
    rintro t res n' ⟨ht, ⟨⟨e, -, rfl⟩, rfl⟩ | ⟨now, rfl, rfl⟩⟩
    · exact ⟨ht, .refl _ n', .inr (.inr ⟨_, rfl⟩)⟩
    · obtain ⟨-, hanswer⟩ :=
        (answers_incomingHandshake2 hx hwaits returned : Answers _ _ now _ _) n.registry rfl rfl
      refine ⟨ht, .of_registry (handle_incomingHandshake2_leaves now id returned n.registry), ?_⟩
      obtain ⟨block, mac, -, -, hreply, hheld⟩ | ⟨hreply, -⟩ := hanswer
      · refine .inl ⟨mac, ?_, ?_⟩
        · rw [hreply]
          exact received_of_plain rfl (by decide)
        · rw [hheld, Function.update_self]
          rfl
      · refine .inr (.inl ?_)
        rw [hreply]
        exact received_of_plain rfl (by decide)
  · rintro _ m n' ⟨rfl, hleft, ⟨mac, ⟨⟩, hheld⟩ | ⟨⟨⟩⟩ | ⟨_, ⟨⟩⟩⟩
    · exact Acts.pure ⟨rfl, hleft, .inl ⟨mac, rfl, hheld⟩⟩
    · exact Acts.throw ⟨rfl, hleft, .inr ⟨_, rfl⟩⟩
  · rintro t e n' ⟨ht, hleft, -⟩
    exact ⟨ht, hleft, .inr ⟨e, rfl⟩⟩

/-- The numbers of requests are no messages and no sessions. -/
theorem Acts.numbered {β : Type} {f : UInt16 → Action β}
    {Q : List Sent → Except TunnelError β → Node → Prop}
    (h : Acts { n with nextRequest := n.nextRequest + 1 } (f n.nextRequest) Q) :
    Acts n (nextRequestId >>= f) Q := by
  refine Acts.after (P := fun t number n' => t = [] ∧ number = n.nextRequest ∧
    n' = { n with nextRequest := n.nextRequest + 1 }) (Comes.modifyGet ⟨rfl, rfl, rfl⟩) ?_
  rintro _ _ _ ⟨rfl, rfl, rfl⟩
  exact h

/-- A reply with a number gives its payload or nothing. -/
theorem acts_matching (expected actual : UInt16) (payload : Bytes) :
    Acts n (matching expected actual payload) fun t res n' =>
      t = [] ∧ n' = n ∧ (res = .ok payload ∨ ∃ e, res = .error e) := by
  unfold matching
  split
  · exact Acts.pure ⟨rfl, rfl, .inl rfl⟩
  · exact Acts.throw ⟨rfl, rfl, .inr ⟨_, rfl⟩⟩

/-- Putting layers on touches their sessions only. -/
theorem acts_encryptLayers (h : ids.map n.registry.holdings = xs.map some)
    (hxs : ∀ x ∈ xs, x.Usable) (payload : Bytes) :
    Acts n (encryptLayers ids payload) fun t res n' => t = [] ∧ SameBut ids n n' ∧
      n'.registry.holdings = n.registry.holdings ∧
      ∀ blob, res = .ok blob → Peels (xs.map Session.outward).reverse blob payload := by
  apply Acts.numbered
  refine Acts.bind (P := fun t res n' => t = [] ∧ SameBut ids n n' ∧
    n'.registry.holdings = n.registry.holdings ∧ ∀ number blob,
      res = .ok (.layerEncrypted number blob) →
        Peels (xs.map Session.outward).reverse blob payload) ?_ ?_ ?_
  · refine (acts_askSessions rfl).mono ?_
    rintro t res n' ⟨ht, ⟨⟨e, -, rfl⟩, rfl⟩ | ⟨now, rfl, rfl⟩⟩
    · exact ⟨ht, .of_registry (.refl _ _ _), rfl, fun _ _ => nofun⟩
    · obtain ⟨-, hreply, hheld⟩ :=
        (answers_layerEncrypt n.nextRequest h hxs payload : Answers _ _ now _ _) n.registry rfl rfl
      have hleft := handle_layerEncrypt_leaves now n.nextRequest ids payload n.registry
      refine ⟨ht, .of_registry (hleft.mono (List.Subset.refl _) (List.nil_subset _)), hheld, ?_⟩
      intro number blob hres
      obtain ⟨blob', hreply, hpeels, -⟩ | ⟨hreply, -⟩ := hreply
      · rw [hreply] at hres
        obtain ⟨⟩ := eq_of_received hres
        exact hpeels
      · rw [hreply, received_of_plain rfl (by decide)] at hres
        cases hres
  · rintro _ m n' ⟨rfl, hleft, hheld, hpeels⟩
    split
    · next actual layered =>
      refine (acts_matching _ actual layered).mono ?_
      rintro t res n' ⟨rfl, rfl, rfl | ⟨e, rfl⟩⟩
      · refine ⟨rfl, hleft, hheld, ?_⟩
        rintro _ ⟨⟩
        exact hpeels actual layered rfl
      · exact ⟨rfl, hleft, hheld, fun _ => nofun⟩
    · exact Acts.throw ⟨rfl, hleft, hheld, fun _ => nofun⟩
  · rintro t e n' ⟨ht, hleft, hheld, -⟩
    exact ⟨ht, hleft, hheld, fun _ => nofun⟩

/-- Taking layers off touches their sessions only. -/
theorem acts_decryptLayers (h : ids.map n.registry.holdings = xs.map some)
    (hxs : ∀ x ∈ xs, x.Usable) (blob : Bytes) :
    Acts n (decryptLayers ids blob) fun t _ n' => t = [] ∧ SameBut ids n n' ∧
      n'.registry.holdings = n.registry.holdings := by
  apply Acts.numbered
  refine Acts.bind (P := fun t _ n' => t = [] ∧ SameBut ids n n' ∧
    n'.registry.holdings = n.registry.holdings) ?_ ?_ ?_
  · refine (acts_askSessions rfl).mono ?_
    rintro t res n' ⟨ht, ⟨-, rfl⟩ | ⟨now, -, rfl⟩⟩
    · exact ⟨ht, .of_registry (.refl _ _ _), rfl⟩
    · obtain ⟨-, -, hheld⟩ :=
        (answers_layerDecrypt n.nextRequest h hxs blob : Answers _ _ now _ _) n.registry rfl rfl
      have hleft := handle_layerDecrypt_leaves now n.nextRequest ids blob n.registry
      exact ⟨ht, .of_registry (hleft.mono (List.Subset.refl _) (List.nil_subset _)), hheld⟩
  · rintro _ m n' ⟨rfl, hleft, hheld⟩
    split
    · refine (acts_matching _ _ _).mono ?_
      rintro t res n' ⟨rfl, rfl, -⟩
      exact ⟨rfl, hleft, hheld⟩
    · exact Acts.throw ⟨rfl, hleft, hheld⟩
  · rintro t e n' h'
    exact h'

/-! ### Closing -/

/-- Some numbers have no session, and the node remembers no peers for them. -/
def Cleared (ids : List UInt32) (n : Node) : Prop :=
  ∀ id ∈ ids, n.registry.sessions.get? id = none ∧ n.directory.identityOf? id = none

/-- A session that a node's registry does not hold, and for which the node remembers no peer, is
not remembered when the registry closes it. -/
theorem Cleared.close (h : n.directory.identityOf? id = none) :
    Cleared [id] { n with registry := n.registry.close id } := by
  intro id' hid'
  obtain rfl := List.mem_singleton.1 hid'
  constructor
  · rw [get?_eq_none_iff, (holdings_close n.registry id').2, Function.update_self]
  · unfold directory at h ⊢
    cases hd : n.ownDirectory? with
    | some d =>
      rw [hd] at h
      exact h
    | none =>
      rw [hd] at h
      show (n.registry.close id').directory.identityOf? id' = none
      unfold SessionRegistry.close
      split
      · exact PeerDirectory.identityOf?_forgetSession_self _ id'
      · exact h

/-- Closing a session clears its number. -/
theorem comes_closeSession (id : UInt32) :
    Comes n (closeSession id) fun t _ n' => t = [] ∧ SameBut [id] n n' ∧ Cleared [id] n' := by
  apply Comes.change
  apply Comes.get
  apply Comes.notify
  apply Comes.ask
  intro now
  have hclosed : ∀ r, ownExchange now (.sessionClose id) r = (.ok none, r.close id) := by
    intro r
    have hwritten : Message.transmit (.sessionClose id) = .ok (.sessionClose id) :=
      Message.transmit_of_plain rfl (show 4 ≤ maxPayload by decide)
    simp only [ownExchange, hwritten]
    rfl
  have hforgot : SameBut [id] n (n.updateDirectory (·.forgetSession id)) := by
    apply SameBut.updateDirectory
    intro d id' hid'
    exact d.identityOf?_forgetSession_of_ne fun h => hid' (h ▸ List.mem_cons_self)
  rw [hclosed]
  refine ⟨rfl, hforgot.trans (.of_registry (close_leaves id _)), ?_⟩
  apply Cleared.close
  simp

/-! ### Peers -/

theorem acts_ofFrame {α β : Type} {a? : Except FrameError α} {f : α → Action β}
    {Q : List Sent → Except TunnelError β → Node → Prop}
    (hok : ∀ a, a? = .ok a → Acts n (f a) Q)
    (herror : ∀ e, Q [] (.error (.connection e)) n) : Acts n (ofFrame a? >>= f) Q := by
  cases h : a? with
  | ok a => exact hok a h
  | error e => exact Acts.throw (herror e)

theorem acts_ofFrame_ok {α β : Type} {a? : Except FrameError α} {a : α} (h : a? = .ok a)
    {f : α → Action β} {Q : List Sent → Except TunnelError β → Node → Prop}
    (hf : Acts n (f a) Q) : Acts n (ofFrame a? >>= f) Q := by
  subst h
  exact hf

theorem acts_returnedHandshake (m : Message) :
    Acts n (returnedHandshake m) fun t res n' => t = [] ∧ n' = n ∧
      ∀ link returned, res = .ok (link, returned) ↔ m = .sessionHandshake2 link returned := by
  unfold returnedHandshake
  split
  · apply Acts.pure
    simp
  · next hother =>
    apply Acts.throw
    refine ⟨rfl, rfl, ?_⟩
    intro link returned
    constructor
    · exact nofun
    · intro h
      exact (hother link returned h).elim

/-- A handshake is delivered by one message; it gives what the message brings back. -/
theorem acts_deliverHandshake (hother : dest ≠ n.sessionService) (hostkey handshake : Bytes) :
    Acts n (deliverHandshake dest hostkey handshake) fun t res n' => n' = n ∧
      ∃ s, t = [s] ∧ s.dest = dest ∧ s.message = .incomingHandshake1 hostkey handshake ∧
        ∀ link returned, res = .ok (link, returned) ↔ s.Returns link returned := by
  refine Acts.bind (acts_askPeer hother) ?_ ?_
  · rintro _ m n' ⟨rfl, o, rfl, hres⟩
    refine (acts_returnedHandshake m).mono ?_
    rintro _ res n' ⟨rfl, rfl, hreturned⟩
    refine ⟨rfl, _, rfl, rfl, rfl, ?_⟩
    intro link returned
    rw [hreturned, Sent.Returns]
    obtain e | _ | reply := o
    · cases hres
    · cases hres
    · obtain rfl := Except.ok.inj hres
      simp
  · rintro _ e n' ⟨rfl, o, rfl, hres⟩
    refine ⟨rfl, _, rfl, rfl, rfl, ?_⟩
    intro link returned
    constructor
    · exact nofun
    · intro hreturns
      rw [show o = _ from hreturns] at hres
      cases hres

/-- A cell is sent as one message. -/
theorem acts_sendCell (hother : dest ≠ n.sessionService) (link : UInt32) (data : Bytes) :
    Acts n (sendCell dest link data) fun t _ n' => n' = n ∧
      ∃ s, t = [s] ∧ s.dest = dest ∧ s.message = .tunnelData link data := by
  refine Acts.bind (acts_askPeer hother) ?_ ?_
  · rintro _ m n' ⟨rfl, o, rfl, -⟩
    split
    · exact Acts.pure ⟨rfl, _, rfl, rfl, rfl⟩
    · exact Acts.throw ⟨rfl, _, rfl, rfl, rfl⟩
  · rintro _ e n' ⟨rfl, o, rfl, -⟩
    exact ⟨rfl, _, rfl, rfl, rfl⟩

/-- A peer is told to drop a link by one message. -/
theorem comes_dropLink (hother : dest ≠ n.sessionService) (link : UInt32) :
    Comes n (dropLink dest link) fun t _ n' => n' = n ∧ ∃ s, t = [s] ∧ s.Drops dest link := by
  apply Comes.get
  apply Comes.notify
  refine Comes.send hother ?_
  intro o
  exact ⟨rfl, _, rfl, rfl, rfl⟩

end OnionTunnel.Node
