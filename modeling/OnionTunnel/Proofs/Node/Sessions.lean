import OnionTunnel.Proofs.Network.Services

/-!
# A node and its own sessions

Requests to a node's own session service lead to what the registry answers: a started session waits,
an accepted one is established, and the layers of established sessions go on and come off. The books
change in the node's sessions only.
-/

namespace OnionTunnel.Network

open Function SessionRegistry Sealed

variable {n : Nat} {S : Setting n} {V : Network n → Prop} {now : Instant} {depth : Nat}
  {i : Fin n} {b : Books n}

/-- A plain reply that fits gets back. -/
theorem received_of_plain {reply : Message} (hplain : reply.isPlain = true)
    (hfit : reply.payloadLength ≤ maxPayload) : Node.received (some reply) = .ok reply.canonical :=
  Node.received_of_transmit (Message.transmit_of_plain hplain hfit)

/-- A session request is answered by the node's own registry, or is not written. -/
theorem does_ask (hS : S.Own) (m : Message)
    {P : Option Message → SessionRegistry.Holdings → Prop}
    (h : Leads S V now depth i b (Node.answerSessions m.canonical) fun reply b' =>
      ∃ v, P reply v ∧ b' = b.withSessions i v) :
    Does S V now (depth + 1) i b (Node.askSessions m) fun res b' =>
      ((∃ f, m.encode = .ok f) ∧ ∃ reply v, P reply v ∧ b' = b.withSessions i v ∧
        res = Node.received reply) ∨
      m.transmit ≠ .ok m.canonical ∧ (∃ e, res = .error e) ∧ b' = b := by
  obtain ⟨e, hm⟩ | hm := m.transmit_cases
  · refine (does_askSessions_unwritten hm).mono ?_
    rintro _ _ h'
    exact .inr ⟨fun hok => ok_ne_error hok hm, h'⟩
  · refine (does_askSessions hS hm h).mono ?_
    rintro _ _ h'
    exact .inl ⟨Message.encode_of_transmit hm, h'⟩

/-! ### Handshakes -/

/-- In every network that is seen, what a node's registry seals for a hostkey opens faithfully under
a keypair. -/
def Opener (S : Setting n) (V : Network n → Prop) (now : Instant) (i : Fin n) (hostkey : Bytes)
    (k : Keypair) : Prop :=
  ∀ net : Network n, net.setting = S → V net → Faithful (net.node i).registry now hostkey k

/-- In some network that is seen with these books, a node's registry finds no new number. -/
def Spent (S : Setting n) (V : Network n → Prop) (b : Books n) (j : Fin n) : Prop :=
  ∃ net : Network n, net.setting = S ∧ net.books = b ∧ V net ∧ ¬ (net.node j).registry.Spare

/-- Starting a session puts a waiting session under a new number. -/
theorem does_startSession (hS : S.Own) (hostkey : Bytes) :
    Does S V now (depth + 1) i b (Node.startSession hostkey) fun res b' =>
      (∃ id handshake x, res = .ok (id, handshake) ∧ (b i).session id = none ∧
        b' = b.setSession i id (some x) ∧ Offered (Opener S V now i hostkey) hostkey x handshake) ∨
      (∃ e, res = .error e) ∧ b' = b ∧
        (hostkey.length ≤ maxPayload → Startable hostkey → Spent S V b i) := by
  refine Does.bind (P := fun res b' =>
    (∃ id handshake x, res = .ok (.sessionHandshake1 id handshake) ∧ (b i).session id = none ∧
      b' = b.setSession i id (some x) ∧ Offered (Opener S V now i hostkey) hostkey x handshake) ∨
    (res = .ok .sessionDeclined ∨ ∃ e, res = .error e) ∧ b' = b ∧
      (hostkey.length ≤ maxPayload → Startable hostkey → Spent S V b i)) ?_ ?_ ?_
  · refine (does_ask hS (.sessionStart hostkey) (P := fun reply v =>
      (∃ id handshake x, reply = some (.sessionHandshake1 id handshake) ∧
        (b i).session id = none ∧ v = update (b i).session id (some x) ∧
        Offered (Opener S V now i hostkey) hostkey x handshake) ∨
      reply = some .sessionDeclined ∧ (Startable hostkey → Spent S V b i) ∧
        v = (b i).session) (leads_sessions_of_seen ?_)).mono ?_
    · rintro net rfl rfl hseen
      refine (replies_sessionStart (net.node i).registry hostkey).mono ?_
      rintro _ _ (⟨id, handshake, x, rfl, hfree, rfl, hoffered⟩ | ⟨hdeclined, hreason, hkept⟩)
      · exact .inl ⟨id, handshake, x, rfl, hfree, rfl,
          hoffered.mono fun k hk => hk net rfl hseen⟩
      · exact .inr ⟨hdeclined, fun hstartable => ⟨net, rfl, rfl, hseen, hreason hstartable⟩, hkept⟩
    rintro _ _ (⟨-, _, v, ⟨id, handshake, x, rfl, hfree, rfl, hoffered⟩ | ⟨rfl, hreason, rfl⟩,
      rfl, rfl⟩ | ⟨hunwritten, herror, rfl⟩)
    · refine .inl ⟨id, handshake, x, received_of_plain rfl ?_, hfree, rfl, hoffered⟩
      exact Nat.le_trans (Nat.add_le_add_left hoffered.length_le 4) (by decide)
    · exact .inr ⟨.inl rfl, Books.withSessions_self b i, fun _ => hreason⟩
    · exact .inr ⟨.inr herror, rfl, fun hfit =>
        (hunwritten (Message.transmit_of_plain (m := .sessionStart hostkey) rfl hfit)).elim⟩
  · rintro _ _ (⟨id, handshake, x, ⟨⟩, h⟩ | ⟨⟨⟨⟩⟩ | ⟨_, ⟨⟩⟩, h⟩)
    · exact Does.pure (.inl ⟨id, handshake, x, rfl, h⟩)
    · exact Does.throw (.inr ⟨⟨_, rfl⟩, h⟩)
  · rintro e _ (⟨_, _, _, ⟨⟩, _⟩ | ⟨-, h⟩)
    exact .inr ⟨⟨e, rfl⟩, h⟩

/-- A registry that gets a handshake accepts it, or it is declined and nothing is left of it. -/
theorem leads_sessions_handshake1 (hostkey handshake : Bytes) :
    Leads S V now depth i b (Node.answerSessions (.incomingHandshake1 hostkey handshake))
      fun reply b' => ∃ v,
        ((∃ id returned y, reply = some (.sessionHandshake2 id returned) ∧
            (b i).session id = none ∧ v = update (b i).session id (some y) ∧
            Answered (S.node i).registry hostkey handshake y returned) ∨
          reply = some .sessionDeclined ∧ v = (b i).session ∧
            (Welcomes (S.node i).registry hostkey handshake → Spent S V b i)) ∧
        b' = b.withSessions i v := by
  apply leads_sessions_of_seen
  rintro net rfl rfl hseen
  refine (replies_incomingHandshake1 (net.node i).registry hostkey handshake).mono ?_
  rintro _ _ (⟨id, returned, y, rfl, hfree, rfl, hanswered⟩ | ⟨rfl, rfl, hreason⟩)
  · exact .inl ⟨id, returned, y, rfl, hfree, rfl, hanswered⟩
  · exact .inr ⟨rfl, rfl, fun hwelcome => ⟨net, rfl, rfl, hseen, hreason hwelcome⟩⟩

/-- Accepting a handshake puts an established session under a new number. -/
theorem does_acceptSession (hS : S.Own) (hostkey handshake : Bytes) :
    Does S V now (depth + 1) i b (Node.acceptSession hostkey handshake) fun res b' =>
      (∃ id returned y, res = .ok (id, returned) ∧ (b i).session id = none ∧
        b' = b.setSession i id (some y) ∧
        Answered (S.node i).registry hostkey handshake y returned) ∨
      (∃ e, res = .error e) ∧ b' = b ∧ (4 + hostkey.length + handshake.length ≤ maxPayload →
        Welcomes (S.node i).registry hostkey handshake → Spent S V b i) := by
  refine Does.bind (P := fun res b' =>
    (∃ id returned y, res = .ok (.sessionHandshake2 id returned) ∧ (b i).session id = none ∧
      b' = b.setSession i id (some y) ∧
      Answered (S.node i).registry hostkey handshake y returned) ∨
    (res = .ok .sessionDeclined ∨ ∃ e, res = .error e) ∧ b' = b ∧
      (4 + hostkey.length + handshake.length ≤ maxPayload →
        Welcomes (S.node i).registry hostkey handshake → Spent S V b i)) ?_ ?_ ?_
  · refine (does_ask hS (.incomingHandshake1 hostkey handshake)
      (leads_sessions_handshake1 hostkey handshake)).mono ?_
    rintro _ _ (⟨-, _, v, ⟨id, returned, y, rfl, hfree, rfl, hanswered⟩ | ⟨rfl, rfl, hreason⟩,
      rfl, rfl⟩ | ⟨hunwritten, herror, rfl⟩)
    · refine .inl ⟨id, returned, y, received_of_plain rfl ?_, hfree, rfl, hanswered⟩
      exact Nat.le_trans (Nat.add_le_add_left hanswered.length_le 4) (by decide)
    · exact .inr ⟨.inl rfl, Books.withSessions_self b i, fun _ => hreason⟩
    · exact .inr ⟨.inr herror, rfl, fun hfit =>
        (hunwritten (Message.transmit_of_plain (m := .incomingHandshake1 hostkey handshake) rfl
          hfit)).elim⟩
  · rintro _ _ (⟨id, returned, y, ⟨⟩, h⟩ | ⟨⟨⟨⟩⟩ | ⟨_, ⟨⟩⟩, h⟩)
    · exact Does.pure (.inl ⟨id, returned, y, rfl, h⟩)
    · exact Does.throw (.inr ⟨⟨_, rfl⟩, h⟩)
  · rintro e _ (⟨_, _, _, ⟨⟩, _⟩ | ⟨-, h⟩)
    exact .inr ⟨⟨e, rfl⟩, h⟩

/-- Confirming a session that waits establishes it, if the block that came back opens. -/
theorem does_confirmSession (hS : S.Own) {id : UInt32} {x : Session}
    (hx : (b i).session id = some x) (hwaits : x.handshake = ⟨.initiator, .awaitingConfirm⟩)
    {returned block mac : Bytes} (hfit : returned.length ≤ 516)
    (hblock : Message.embedded2 returned = .ok block)
    (hmac : (S.node i).registry.keypair.decrypt block = .ok mac) :
    Does S V now (depth + 1) i b (Node.confirmSession id returned) fun res b' =>
      res = .ok () ∧ b' = b.setSession i id
        (some { x with handshake := ⟨.initiator, .established⟩, remoteMac? := some mac }) := by
  have hm : Message.transmit (.incomingHandshake2 id returned) =
      .ok (.incomingHandshake2 id returned) :=
    Message.transmit_of_plain rfl (Nat.le_trans (Nat.add_le_add_left hfit 4) (by decide))
  refine Does.andThen (P := fun m b' => m = .sessionConfirmed ∧ b' = b.setSession i id
    (some { x with handshake := ⟨.initiator, .established⟩, remoteMac? := some mac })) ?_ ?_
  · refine (does_askSessions hS hm
      (leads_sessions (answers_incomingHandshake2 hx hwaits returned))).mono ?_
    rintro _ _ ⟨_, v, ⟨block', mac', hblock', hmac', rfl, rfl⟩ | ⟨-, -, hclosed⟩, rfl, rfl⟩
    · obtain rfl := Except.ok.inj (hblock.symm.trans hblock')
      obtain rfl := Except.ok.inj (hmac.symm.trans hmac')
      exact ⟨_, received_of_plain rfl (by decide), rfl, rfl⟩
    · exact (hclosed block mac hblock hmac).elim
  · rintro _ _ ⟨rfl, rfl⟩
    exact Does.pure ⟨rfl, rfl⟩

/-! ### Layers -/

/-- The numbers of requests are not on the books. -/
theorem does_numbered {α : Type} {f : UInt16 → Node.Action α}
    {Q : Except TunnelError α → Books n → Prop}
    (h : ∀ number, Does S V now depth i b (f number) Q) :
    Does S V now depth i b (Node.nextRequestId >>= f) Q := by
  refine Does.andThen (P := fun _ b' => b' = b) ?_ ?_
  · refine Does.lift (Leads.modifyGet ?_)
    intro node hset hrow
    exact ⟨hset, _, rfl, (congrArg (update b i) hrow).trans (update_eq_self i b)⟩
  · rintro number _ rfl
    exact h number

/-- A reply with the number of its request has its payload taken. -/
theorem does_matching {number : UInt16} {payload : Bytes}
    {Q : Except TunnelError Bytes → Books n → Prop} (h : Q (.ok payload) b) :
    Does S V now depth i b (Node.matching number number payload) Q := by
  rw [Node.matching, if_pos rfl]
  exact Does.pure h

/-- Layers go on exactly if a request can list their sessions and the result fits a reply. -/
theorem does_encryptLayers (hS : S.Own) {ids : List UInt32} {xs : List Session}
    (h : ids.map (b i).session = xs.map some) (hxs : ∀ x ∈ xs, x.Usable) (payload : Bytes) :
    Does S V now (depth + 1) i b (Node.encryptLayers ids payload) fun res b' =>
      ((∃ blob, res = .ok blob ∧ Peels (xs.map Session.outward).reverse blob payload ∧
          blob.length = payload.length + overhead * xs.length ∧ xs.length ≤ 255 ∧
          blob.length + layerReplyHeader ≤ maxPayload) ∨
        (∃ e, res = .error e) ∧ ¬ (xs.length ≤ 255 ∧
          payload.length + overhead * xs.length + layerReplyHeader ≤ maxPayload)) ∧
      b' = b := by
  have hlen : ids.length = xs.length := by simpa using congrArg List.length h
  refine does_numbered fun number => ?_
  refine Does.bind (P := fun res b' =>
    ((∃ blob, res = .ok (.layerEncrypted number blob) ∧
        Peels (xs.map Session.outward).reverse blob payload ∧
        blob.length = payload.length + overhead * xs.length ∧ xs.length ≤ 255 ∧
        blob.length + layerReplyHeader ≤ maxPayload) ∨
      (res = .ok .sessionDeclined ∨ ∃ e, res = .error e) ∧ ¬ (xs.length ≤ 255 ∧
        payload.length + overhead * xs.length + layerReplyHeader ≤ maxPayload)) ∧
    b' = b) ?_ ?_ ?_
  · refine (does_ask hS _ (leads_sessions (answers_layerEncrypt number h hxs payload))).mono ?_
    rintro _ _ (⟨⟨f, hf⟩, _, v, ⟨⟨blob, rfl, hpeels, hblob, hfit⟩ | ⟨rfl, hlong⟩, rfl⟩, rfl, rfl⟩ |
      ⟨hunwritten, herror, rfl⟩)
    · refine ⟨.inl ⟨blob, received_of_plain rfl ?_, hpeels, hblob, ?_, hfit⟩,
        Books.withSessions_self b i⟩
      · exact Nat.le_trans (Nat.le_of_eq (Nat.add_comm 4 _)) hfit
      · exact hlen ▸ (Message.fits_of_encode hf).2.1
    · refine ⟨.inr ⟨.inl rfl, fun hfit => ?_⟩, Books.withSessions_self b i⟩
      omega
    · refine ⟨.inr ⟨.inr herror, fun hfit => hunwritten ?_⟩, rfl⟩
      refine Message.transmit_of_fits ?_ (hlen ▸ hfit.1) trivial (by simp [Message.Blank])
      have hoverhead : overhead = 48 := rfl
      simp only [Message.payloadLength, hlen]
      simp only [hoverhead, layerReplyHeader] at hfit
      omega
  · rintro _ _ ⟨⟨blob, ⟨⟩, hblob⟩ | ⟨⟨⟨⟩⟩ | ⟨_, ⟨⟩⟩, hlong⟩, rfl⟩
    · exact does_matching ⟨.inl ⟨blob, rfl, hblob⟩, rfl⟩
    · exact Does.throw ⟨.inr ⟨⟨_, rfl⟩, hlong⟩, rfl⟩
  · rintro e _ ⟨⟨_, ⟨⟩, _⟩ | ⟨-, hlong⟩, rfl⟩
    exact ⟨.inr ⟨⟨e, rfl⟩, hlong⟩, rfl⟩

/-- Layers come off exactly if a request can carry them and the blob peels. -/
theorem does_decryptLayers (hS : S.Own) {ids : List UInt32} {xs : List Session}
    (h : ids.map (b i).session = xs.map some) (hxs : ∀ x ∈ xs, x.Usable) (blob : Bytes) :
    Does S V now (depth + 1) i b (Node.decryptLayers ids blob) fun res b' =>
      ((∃ text, res = .ok text ∧ Peels (xs.map Session.inward).reverse blob text ∧
          xs.length ≤ 255 ∧ 4 + 4 * xs.length + blob.length ≤ maxPayload) ∨
        (∃ e, res = .error e) ∧ ¬ ((∃ text, Peels (xs.map Session.inward).reverse blob text) ∧
          xs.length ≤ 255 ∧ 4 + 4 * xs.length + blob.length ≤ maxPayload)) ∧
      b' = b := by
  have hlen : ids.length = xs.length := by simpa using congrArg List.length h
  refine does_numbered fun number => ?_
  refine Does.bind (P := fun res b' =>
    ((∃ text, res = .ok (.layerDecrypted number text) ∧
        Peels (xs.map Session.inward).reverse blob text ∧
        xs.length ≤ 255 ∧ 4 + 4 * xs.length + blob.length ≤ maxPayload) ∨
      (res = .ok .sessionDeclined ∨ ∃ e, res = .error e) ∧
        ¬ ((∃ text, Peels (xs.map Session.inward).reverse blob text) ∧
          xs.length ≤ 255 ∧ 4 + 4 * xs.length + blob.length ≤ maxPayload)) ∧
    b' = b) ?_ ?_ ?_
  · refine (does_ask hS _ (leads_sessions (answers_layerDecrypt number h hxs blob))).mono ?_
    rintro _ _ (⟨⟨f, hf⟩, _, v, ⟨⟨text, rfl, hpeels, hfit⟩ | ⟨rfl, hlong⟩, rfl⟩, rfl, rfl⟩ |
      ⟨hunwritten, herror, rfl⟩)
    · obtain ⟨hrequest, hlisted, -⟩ := Message.fits_of_encode hf
      simp only [Message.payloadLength, hlen] at hrequest
      refine ⟨.inl ⟨text, received_of_plain rfl ?_, hpeels, hlen ▸ hlisted, hrequest⟩,
        Books.withSessions_self b i⟩
      exact Nat.le_trans (Nat.le_of_eq (Nat.add_comm 4 _)) hfit
    · refine ⟨.inr ⟨.inl rfl, ?_⟩, Books.withSessions_self b i⟩
      rintro ⟨⟨text, hpeels⟩, -, hfit⟩
      have hshort := hlong text hpeels
      have hblob := hpeels.length_eq
      simp only [layerReplyHeader] at hshort
      omega
    · refine ⟨.inr ⟨.inr herror, fun hfit => hunwritten ?_⟩, rfl⟩
      refine Message.transmit_of_fits ?_ (hlen ▸ hfit.2.1) trivial (by simp [Message.Blank])
      simpa only [Message.payloadLength, hlen] using hfit.2.2
  · rintro _ _ ⟨⟨text, ⟨⟩, htext⟩ | ⟨⟨⟨⟩⟩ | ⟨_, ⟨⟩⟩, hreason⟩, rfl⟩
    · exact does_matching ⟨.inl ⟨text, rfl, htext⟩, rfl⟩
    · exact Does.throw ⟨.inr ⟨⟨_, rfl⟩, hreason⟩, rfl⟩
  · rintro e _ ⟨⟨_, ⟨⟩, _⟩ | ⟨-, hreason⟩, rfl⟩
    exact ⟨.inr ⟨⟨e, rfl⟩, hreason⟩, rfl⟩

/-! ### Closing -/

/-- Closing a session takes it off the books. -/
theorem leads_closeSession (hS : S.Own) (id : UInt32) :
    Leads S V now (depth + 1) i b (Node.closeSession id) fun _ b' => b' = b.setSession i id none := by
  refine Leads.bind (P := fun _ b' => b' = b) ?_ ?_
  · refine Leads.modifyGet fun node hset hrow => ?_
    obtain ⟨hset', hrow'⟩ := Node.updateDirectory_setting (·.forgetSession id) node
    exact ⟨hset'.trans hset, by rw [hrow', hrow, update_eq_self]⟩
  · rintro _ _ rfl
    refine Leads.get fun node hset _ => ?_
    have hservice : node.sessionService = (S.node i).sessionService := by
      rw [← hset]
      rfl
    rw [hservice]
    have hm : Message.transmit (.sessionClose id) = .ok (.sessionClose id) :=
      Message.transmit_of_plain rfl (show 4 ≤ maxPayload by decide)
    refine Leads.bind (Leads.exchange (yields_service (hS i) hm
      (leads_sessions (answers_sessionClose id)))) ?_
    rintro _ _ ⟨_, -, v, ⟨-, rfl⟩, rfl⟩
    exact Leads.pure rfl

end OnionTunnel.Network
