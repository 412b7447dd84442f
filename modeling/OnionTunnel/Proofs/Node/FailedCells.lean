import OnionTunnel.Proofs.Node.Rollback

/-!
# Cells that fail

A cell that fails leaves the links and the sessions of a hop as they were, with one exception. The
command to extend a link is done once the next hop has returned its handshake; if that handshake
does not fit the cell that should carry it back, the cell fails and the link goes on all the same.

## Implementation notes

What the downstream or the next hop answers is anything at all, and it may be the node's own session
service, to which a link can be extended as well. So a message to a peer has two lemmas, one for
others and one for the own service.
-/

namespace OnionTunnel

open Function Sealed

namespace SessionRegistry

variable {R : Setting} {v : Holdings} {now : Instant} {id : UInt32}

/-- The keys that take a layer off are those of a session that can carry layers. -/
theorem usable_of_unwrap {k : Bytes × Bytes} {blob text : Bytes} (h : inward? v id = some k)
    (hopen : unwrap k.1 k.2 blob = .ok text) : ∃ x, v id = some x ∧ x.Usable ∧ x.inward = k := by
  obtain ⟨x, hx, hkeys⟩ := Option.bind_eq_some_iff.1 h
  split at hkeys
  · next hestablished =>
    obtain ⟨mac, hmac, rfl⟩ := Option.map_eq_some_iff.1 hkeys
    replace hmac : x.remoteMac? = some mac := hmac
    have hinward : x.inward = (x.sharedKey, mac) := by rw [Session.inward, hmac, Option.getD_some]
    refine ⟨x, hx, ⟨of_decide_eq_true hestablished, valid_of_unwrap hopen, ?_⟩, hinward⟩
    rw [hinward, hmac]
  · cases hkeys

/-- One layer comes off exactly if the session under the number can carry layers and the blob opens
under its keys, and the text fits the reply. -/
theorem answers_layerDecrypt_one (request : UInt16) (id : UInt32) (blob : Bytes) :
    Answers R v now (.layerDecrypt request [id] blob) fun reply v' =>
      ((∃ x text, v id = some x ∧ x.Usable ∧ Peels [x.inward] blob text ∧
          reply = some (.layerDecrypted request text) ∧
          text.length + layerReplyHeader ≤ maxPayload) ∨
        reply = some .sessionDeclined ∧ ∀ x text, v id = some x → x.Usable →
          Peels [x.inward] blob text → maxPayload < text.length + layerReplyHeader) ∧
      v' = v := by
  by_cases hopens : ∃ x, v id = some x ∧ x.Usable
  · obtain ⟨x, hx, husable⟩ := hopens
    have hheld : [id].map v = [x].map some := by simp [hx]
    intro r hR hv
    refine (answers_layerDecrypt request hheld (by simpa using husable) blob r hR hv).mono ?_
    rintro _ _ ⟨⟨text, rfl, hpeels, hfit⟩ | ⟨rfl, hlong⟩, rfl⟩
    · exact ⟨.inl ⟨x, text, hx, husable, hpeels, rfl, hfit⟩, rfl⟩
    · refine ⟨.inr ⟨rfl, ?_⟩, rfl⟩
      intro x' text hx' _ hpeels
      obtain rfl := Option.some.inj (hx.symm.trans hx')
      exact hlong text hpeels
  · refine answers_of_ensures (P := fun res v' => (∃ e, res = .error e) ∧ v' = v) ?_ ?_ ?_
    · refine (layerDecrypt_ensures now [id] blob).bind ?_ ?_
      · rintro text _ ⟨htext, rfl⟩
        obtain ⟨keys, hkeys, hpeels⟩ := (htext text).1 rfl
        obtain ⟨k, _, rfl, hk, hrest⟩ := List.map_eq_cons_iff.1 hkeys.symm
        obtain rfl := List.map_eq_nil_iff.1 hrest
        obtain ⟨_, hopen, rfl⟩ := hpeels
        obtain ⟨x, hx, husable, -⟩ := usable_of_unwrap hk.symm hopen
        exact (hopens ⟨x, hx, husable⟩).elim
      · rintro e _ ⟨-, rfl⟩
        exact ⟨⟨e, rfl⟩, rfl⟩
    · rintro _ _ ⟨⟨_, ⟨⟩⟩, _⟩
    · rintro e _ ⟨-, rfl⟩
      exact ⟨.inr ⟨rfl, fun x _ hx husable => (hopens ⟨x, hx, husable⟩).elim⟩, rfl⟩

end SessionRegistry

namespace Node

open Network SessionRegistry

variable {n n' : Node} {t : List Sent} {id link : UInt32} {x : Session} {dest nextHop : Address}
  {m : Message} {data command incoming hostkey handshake returned : Bytes}

/-- The links and the sessions of a node are as they were. -/
structure Unchanged (n n' : Node) : Prop where
  links : n'.links = n.links
  sessions : n'.registry.holdings = n.registry.holdings
  service : n'.sessionService = n.sessionService

theorem Unchanged.refl (n : Node) : Unchanged n n := ⟨rfl, rfl, rfl⟩

theorem Unchanged.trans {n'' : Node} (h : Unchanged n n') (h' : Unchanged n' n'') :
    Unchanged n n'' :=
  ⟨h'.links.trans h.links, h'.sessions.trans h.sessions, h'.service.trans h.service⟩

/-! ### The layer of a link -/

/-- The payload of a reply with the number of its request is taken. -/
theorem acts_matching_self (number : UInt16) (payload : Bytes) :
    Acts n (matching number number payload) fun t res n' =>
      t = [] ∧ n' = n ∧ res = .ok payload := by
  unfold matching
  rw [if_pos rfl]
  exact Acts.pure ⟨rfl, rfl, rfl⟩

/-- The hop's layer comes off exactly if the session of the link can carry layers and the cell opens
under its keys, in one request. -/
theorem acts_decryptLayer (id : UInt32) (data : Bytes) :
    Acts n (decryptLayers [id] data) fun t res n' => t = [] ∧ Unchanged n n' ∧
      ((∃ x text, n.registry.holdings id = some x ∧ x.Usable ∧ Peels [x.inward] data text ∧
          res = .ok text) ∨
        (∃ e, res = .error e) ∧ ∀ x text, n.registry.holdings id = some x → x.Usable →
          Peels [x.inward] data text → maxPayload < 4 + 4 + data.length) := by
  apply Acts.numbered
  refine Acts.bind (P := fun t res n' => t = [] ∧ Unchanged n n' ∧
    ((∃ x text, n.registry.holdings id = some x ∧ x.Usable ∧ Peels [x.inward] data text ∧
        res = .ok (.layerDecrypted n.nextRequest text)) ∨
      (res = .ok .sessionDeclined ∨ ∃ e, res = .error e) ∧ ∀ x text,
        n.registry.holdings id = some x → x.Usable → Peels [x.inward] data text →
          maxPayload < 4 + 4 + data.length)) ?_ ?_ ?_
  · refine (acts_askSessions rfl).mono ?_
    rintro t res n' ⟨ht, ⟨⟨e, hunwritten, rfl⟩, rfl⟩ | ⟨now, rfl, rfl⟩⟩
    · refine ⟨ht, ⟨rfl, rfl, rfl⟩, .inr ⟨.inr ⟨_, rfl⟩, ?_⟩⟩
      intro _ _ _ _ _
      by_contra hfit
      refine ok_ne_error (Message.transmit_of_fits (m := .layerDecrypt n.nextRequest [id] data) ?_
        (by simp [Message.listed]) trivial (by simp [Message.Blank])) hunwritten
      simpa [Message.payloadLength] using hfit
    · obtain ⟨-, hreply, hheld⟩ :=
        (answers_layerDecrypt_one n.nextRequest id data : Answers _ _ now _ _) n.registry rfl rfl
      refine ⟨ht, ⟨rfl, hheld, rfl⟩, ?_⟩
      obtain ⟨x, text, hx, husable, hpeels, hreply, hfit⟩ | ⟨hreply, hlong⟩ := hreply
      · refine .inl ⟨x, text, hx, husable, hpeels, ?_⟩
        rw [hreply]
        refine received_of_plain rfl ?_
        exact Nat.le_trans (Nat.le_of_eq (Nat.add_comm 4 _)) hfit
      · refine .inr ⟨.inl ?_, ?_⟩
        · rw [hreply]
          exact received_of_plain rfl (by decide)
        · intro x text hx husable hpeels
          have hshort := hlong x text hx husable hpeels
          have hlength := hpeels.length_eq
          simp only [layerReplyHeader] at hshort
          omega
  · rintro _ _ n' ⟨rfl, hsame, ⟨x, text, hx, husable, hpeels, ⟨⟩⟩ | ⟨⟨⟨⟩⟩ | ⟨_, ⟨⟩⟩, hclosed⟩⟩
    · refine (acts_matching_self _ text).mono ?_
      rintro _ _ _ ⟨rfl, rfl, rfl⟩
      exact ⟨rfl, hsame, .inl ⟨x, text, hx, husable, hpeels, rfl⟩⟩
    · exact Acts.throw ⟨rfl, hsame, .inr ⟨⟨_, rfl⟩, hclosed⟩⟩
  · rintro t e n' ⟨ht, hsame, ⟨_, _, -, -, -, ⟨⟩⟩ | ⟨-, hclosed⟩⟩
    exact ⟨ht, hsame, .inr ⟨⟨e, rfl⟩, hclosed⟩⟩

/-- A reply of a length fits the cell that carries it back. -/
def FitsBack (length : Nat) : Prop := length + overhead + layerReplyHeader ≤ maxPayload

/-- The hop's layer goes on exactly if the reply fits, in one request. -/
theorem acts_encryptLayer (hx : n.registry.holdings id = some x) (husable : x.Usable)
    (reply : Bytes) :
    Acts n (encryptLayers [id] reply) fun t res n' => t = [] ∧ Unchanged n n' ∧
      (FitsBack reply.length ∧ (∃ cell, res = .ok cell) ∨
        ¬ FitsBack reply.length ∧ ∃ e, res = .error e) := by
  apply Acts.numbered
  refine Acts.bind (P := fun t res n' => t = [] ∧ Unchanged n n' ∧
    (FitsBack reply.length ∧ (∃ cell, res = .ok (.layerEncrypted n.nextRequest cell)) ∨
      ¬ FitsBack reply.length ∧ (res = .ok .sessionDeclined ∨ ∃ e, res = .error e))) ?_ ?_ ?_
  · refine (acts_askSessions rfl).mono ?_
    rintro t res n' ⟨ht, ⟨⟨e, hunwritten, rfl⟩, rfl⟩ | ⟨now, rfl, rfl⟩⟩
    · refine ⟨ht, ⟨rfl, rfl, rfl⟩, .inr ⟨?_, .inr ⟨_, rfl⟩⟩⟩
      intro hfit
      refine ok_ne_error (Message.transmit_of_fits (m := .layerEncrypt n.nextRequest [id] reply) ?_
        (by simp [Message.listed]) trivial (by simp [Message.Blank])) hunwritten
      have hoverhead : overhead = 48 := rfl
      simp only [FitsBack, hoverhead, layerReplyHeader] at hfit
      simp only [Message.payloadLength, List.length_singleton]
      omega
    · have hthere : [id].map n.registry.holdings = [x].map some := by simp [hx]
      obtain ⟨-, hreply, hheld⟩ := (answers_layerEncrypt n.nextRequest hthere
        (by simpa using husable) reply : Answers _ _ now _ _) n.registry rfl rfl
      refine ⟨ht, ⟨rfl, hheld, rfl⟩, ?_⟩
      obtain ⟨cell, hreply, -, hlength, hfit⟩ | ⟨hreply, hlong⟩ := hreply
      · refine .inl ⟨?_, cell, ?_⟩
        · rw [FitsBack]
          simpa [hlength] using hfit
        · rw [hreply]
          refine received_of_plain rfl ?_
          exact Nat.le_trans (Nat.le_of_eq (Nat.add_comm 4 _)) hfit
      · refine .inr ⟨?_, .inl ?_⟩
        · rw [FitsBack]
          simpa using hlong
        · rw [hreply]
          exact received_of_plain rfl (by decide)
  · rintro _ _ n' ⟨rfl, hsame, ⟨hfit, cell, ⟨⟩⟩ | ⟨hlong, ⟨⟨⟩⟩ | ⟨_, ⟨⟩⟩⟩⟩
    · refine (acts_matching_self _ cell).mono ?_
      rintro _ _ _ ⟨rfl, rfl, rfl⟩
      exact ⟨rfl, hsame, .inl ⟨hfit, cell, rfl⟩⟩
    · exact Acts.throw ⟨rfl, hsame, .inr ⟨hlong, _, rfl⟩⟩
  · rintro t e n' ⟨ht, hsame, ⟨-, _, ⟨⟩⟩ | ⟨hlong, -⟩⟩
    exact ⟨ht, hsame, .inr ⟨hlong, e, rfl⟩⟩

/-! ### The downstream and the next hop -/

/-- A cell that goes on changes nothing here, wherever it goes. -/
theorem acts_sendCell_anywhere (dest : Address) (link : UInt32) (data : Bytes) :
    Acts n (sendCell dest link data) fun _ _ n' => Unchanged n n' := by
  refine Acts.bind (P := fun _ _ n' => Unchanged n n') ?_ ?_ ?_
  · by_cases hdest : dest = n.sessionService
    · subst hdest
      refine (acts_askPeer_own rfl).mono ?_
      rintro t res n' ⟨-, ⟨-, rfl⟩ | ⟨now, -, rfl⟩⟩
      · exact .refl n'
      · exact ⟨rfl, rfl, rfl⟩
    · refine (acts_askPeer hdest).mono ?_
      rintro t res n' ⟨rfl, -⟩
      exact .refl n'
  · intro t m n' hsame
    split
    · exact Acts.pure hsame
    · exact Acts.throw hsame
  · intro t e n' hsame
    exact hsame

/-- The node's own session service accepts a handshake by itself and returns a short one, or nothing
changes. -/
theorem acts_deliverHandshake_own (hostkey handshake : Bytes) :
    Acts n (deliverHandshake n.sessionService hostkey handshake) fun t res n' => t = [] ∧
      n'.links = n.links ∧
      ((∃ new returned y, res = .ok (new, returned) ∧ returned.length ≤ 516 ∧
          n.registry.holdings new = none ∧
          n'.registry.holdings = update n.registry.holdings new (some y)) ∨
        (∃ e, res = .error e) ∧ Unchanged n n') := by
  refine Acts.bind (P := fun t res n' => t = [] ∧ n'.links = n.links ∧
    ((∃ new returned y, res = .ok (.sessionHandshake2 new returned) ∧ returned.length ≤ 516 ∧
        n.registry.holdings new = none ∧
        n'.registry.holdings = update n.registry.holdings new (some y)) ∨
      (res = .ok .sessionDeclined ∨ ∃ e, res = .error e) ∧ Unchanged n n')) ?_ ?_ ?_
  · refine (acts_askPeer_own rfl).mono ?_
    rintro t res n' ⟨ht, ⟨⟨e, -, rfl⟩, rfl⟩ | ⟨now, rfl, rfl⟩⟩
    · exact ⟨ht, rfl, .inr ⟨.inr ⟨_, rfl⟩, .refl n'⟩⟩
    · refine ⟨ht, rfl, ?_⟩
      obtain ⟨-, ⟨new, returned, y, hreply, hfree, hheld, hanswered⟩ | ⟨hreply, hheld, -⟩⟩ :=
        (replies_incomingHandshake1 n.registry hostkey handshake : Replies _ _ now _ _)
      · refine .inl ⟨new, returned, y, ?_, hanswered.length_le, hfree, hheld⟩
        rw [hreply]
        refine received_of_plain rfl ?_
        exact Nat.le_trans (Nat.add_le_add_left hanswered.length_le 4) (by decide)
      · refine .inr ⟨.inl ?_, rfl, hheld, rfl⟩
        rw [hreply]
        exact received_of_plain rfl (by decide)
  · rintro _ m n' ⟨rfl, hlinks, ⟨new, returned, y, ⟨⟩, h⟩ | ⟨⟨⟨⟩⟩ | ⟨_, ⟨⟩⟩, hsame⟩⟩
    · exact Acts.pure ⟨rfl, hlinks, .inl ⟨new, returned, y, rfl, h⟩⟩
    · exact Acts.throw ⟨rfl, hlinks, .inr ⟨⟨_, rfl⟩, hsame⟩⟩
  · rintro t e n' ⟨ht, hlinks, ⟨_, _, _, ⟨⟩, -⟩ | ⟨-, hsame⟩⟩
    exact ⟨ht, hlinks, .inr ⟨⟨e, rfl⟩, hsame⟩⟩

/-! ### Commands -/

/-- What comes of a command that extends a link which ends here: nothing changes, or the link goes
on to a hop whose handshake goes back if a frame can hold it, or to a session that the node's own
session service has accepted. -/
inductive Extension (n : Node) (id : UInt32) :
    List Sent → Except TunnelError Bytes → Node → Prop
  | declined {t : List Sent} {res : Except TunnelError Bytes} {n' : Node} (h : Unchanged n n')
      (hres : ∃ e, res = .error e) : Extension n id t res n'
  | joined {res : Except TunnelError Bytes} {n' : Node} (s : Sent) (link : UInt32)
      (returned : Bytes) (hreturns : s.Returns link returned)
      (hlinks : n.links.extend id ⟨s.dest, link⟩ = .ok n'.links)
      (hsessions : n'.registry.holdings = n.registry.holdings)
      (hres : (∃ reply, res = .ok reply ∧ reply.length = 8 + returned.length) ∨
        (∃ e, res = .error e) ∧ maxPayload < 4 + returned.length) : Extension n id [s] res n'
  | own {n' : Node} (new : UInt32) (y : Session) (reply : Bytes)
      (hfree : n.registry.holdings new = none)
      (hsessions : n'.registry.holdings = update n.registry.holdings new (some y))
      (hshort : reply.length ≤ 524) : Extension n id [] (.ok reply) n'

/-- A link that ends here is given a next hop without a message. -/
theorem acts_joinNext {peer : Identity} (hlink : n.links.get? id = some ⟨peer, none⟩)
    (next : Downstream) :
    Acts n (joinNext id next) fun t res n' => t = [] ∧ res = .ok () ∧
      ∃ links, n.links.extend id next = .ok links ∧ n' = { n with links := links } := by
  have hextend : n.links.extend id next = .ok (n.links.insert id ⟨peer, some next⟩) := by
    rw [LinkTable.extend, hlink]
  apply Acts.get
  rw [hextend]
  apply Acts.changed
  exact ⟨rfl, rfl, _, rfl, rfl⟩

/-- A handshake goes back as a frame if one can hold it. -/
theorem acts_return (link : UInt32) (returned : Bytes) :
    Acts n (ofFrame (Message.sessionHandshake2 link returned).encode) fun t res n' =>
      t = [] ∧ n' = n ∧
        ((∃ reply, res = .ok reply ∧ reply.length = 8 + returned.length) ∨
          (∃ e, res = .error e) ∧ maxPayload < 4 + returned.length) := by
  cases hf : (Message.sessionHandshake2 link returned).encode with
  | ok f =>
    refine Acts.pure ⟨rfl, rfl, .inl ⟨f, rfl, ?_⟩⟩
    rw [Message.length_of_encode hf, Message.payloadLength, headerLength]
    omega
  | error e =>
    refine Acts.throw ⟨rfl, rfl, .inr ⟨⟨_, rfl⟩, ?_⟩⟩
    by_contra hfit
    obtain ⟨f, hok⟩ := Message.exists_encode (m := .sessionHandshake2 link returned)
      (Nat.le_of_not_lt hfit) (by simp [Message.listed]) trivial
    exact ok_ne_error hok hf

section Extending
variable {peer : Identity}

/-- The link goes on to a hop among the others exactly if that hop returns a handshake. -/
theorem acts_extendLink_other (hlink : n.links.get? id = some ⟨peer, none⟩)
    (hincoming : Message.decode incoming = .ok (.incomingHandshake1 hostkey handshake))
    (hother : nextHop ≠ n.sessionService) :
    Acts n (extendLink id nextHop incoming) fun t res n' => ∃ s, t = [s] ∧ s.dest = nextHop ∧
      s.message = .incomingHandshake1 hostkey handshake ∧
      ((∀ link returned, ¬ s.Returns link returned) ∧ (∃ e, res = .error e) ∧ n' = n ∨
        ∃ link returned, s.Returns link returned ∧
          n.links.extend id ⟨nextHop, link⟩ = .ok n'.links ∧ n'.registry = n.registry ∧
          ((∃ reply, res = .ok reply ∧ reply.length = 8 + returned.length) ∨
            (∃ e, res = .error e) ∧ maxPayload < 4 + returned.length)) := by
  refine acts_ofFrame_ok hincoming ?_
  refine (acts_deliverHandshake hother hostkey handshake).bind ?_ ?_
  · rintro _ ⟨link, returned⟩ _ ⟨rfl, s, rfl, hdest, hmessage, hreturns⟩
    refine (acts_joinNext hlink ⟨nextHop, link⟩).bind ?_ ?_
    · rintro _ _ _ ⟨rfl, -, links, hlinks, rfl⟩
      refine (acts_return link returned).mono ?_
      rintro _ res _ ⟨rfl, rfl, hres⟩
      exact ⟨s, rfl, hdest, hmessage, .inr ⟨link, returned, (hreturns link returned).1 rfl, hlinks,
        rfl, hres⟩⟩
    · rintro _ _ _ ⟨-, ⟨⟩, -⟩
  · rintro _ e _ ⟨rfl, s, rfl, hdest, hmessage, hreturns⟩
    refine ⟨s, rfl, hdest, hmessage, .inl ⟨?_, ⟨e, rfl⟩, rfl⟩⟩
    intro link returned h
    cases (hreturns link returned).2 h

/-- The node's own session service returns a handshake that always fits. -/
theorem acts_extendLink_own (hlink : n.links.get? id = some ⟨peer, none⟩)
    (hincoming : Message.decode incoming = .ok (.incomingHandshake1 hostkey handshake)) :
    Acts n (extendLink id n.sessionService incoming) (Extension n id) := by
  refine acts_ofFrame_ok hincoming ?_
  refine (acts_deliverHandshake_own hostkey handshake).bind ?_ ?_
  · rintro _ ⟨new, returned⟩ n₁
      ⟨rfl, hlinks, ⟨_, _, y, ⟨⟩, hshort, hfree, hheld⟩ | ⟨⟨_, ⟨⟩⟩, -⟩⟩
    refine (acts_joinNext (hlinks.symm ▸ hlink) ⟨n.sessionService, new⟩).bind ?_ ?_
    · rintro _ _ _ ⟨rfl, -, links, -, rfl⟩
      refine (acts_return new returned).mono ?_
      rintro _ _ _ ⟨rfl, rfl, ⟨reply, rfl, hlength⟩ | ⟨-, hlong⟩⟩
      · exact .own new y reply hfree hheld (by omega)
      · simp only [maxPayload, maxFrame, headerLength] at hlong
        omega
    · rintro _ _ _ ⟨-, ⟨⟩, -⟩
  · rintro _ e n₁ ⟨rfl, -, ⟨_, _, _, ⟨⟩, -⟩ | ⟨-, hsame⟩⟩
    exact .declined hsame ⟨e, rfl⟩

theorem acts_extendLink (hlink : n.links.get? id = some ⟨peer, none⟩) (nextHop : Address)
    (incoming : Bytes) : Acts n (extendLink id nextHop incoming) (Extension n id) := by
  cases hincoming : Message.decode incoming with
  | error e =>
    rw [extendLink, hincoming]
    exact Acts.throw (.declined (.refl n) ⟨_, rfl⟩)
  | ok m =>
    cases m with
    | incomingHandshake1 hostkey handshake =>
      by_cases hdest : nextHop = n.sessionService
      · subst hdest
        exact acts_extendLink_own hlink hincoming
      · refine (acts_extendLink_other hlink hincoming hdest).mono ?_
        rintro _ res n' ⟨s, rfl, rfl, -, ⟨-, hres, rfl⟩ | ⟨link, returned, hreturns, hlinks,
          hregistry, hres⟩⟩
        · exact .declined (.refl n') hres
        · exact .joined s link returned hreturns hlinks (by rw [hregistry]) hres
    | _ =>
      refine acts_ofFrame_ok hincoming ?_
      exact Acts.throw (.declined (.refl n) ⟨_, rfl⟩)

end Extending

/-- What comes of a command at the end of a link: nothing changes, or the link has been extended. -/
theorem acts_execute {peer : Identity} (hlink : n.links.get? id = some ⟨peer, none⟩)
    (command : Bytes) :
    Acts n (execute id peer command) fun t res n' => Unchanged n n' ∨ Extension n id t res n' := by
  refine acts_ofFrame ?_ fun e => .inl (.refl n)
  intro m hm
  cases m with
  | tunnelExtend nextHop incoming =>
    exact (acts_extendLink hlink nextHop incoming).mono fun _ _ _ => .inr
  | tunnelData link payload =>
    show Acts n (if link = endLink then _ else _) _
    split
    · apply Acts.get
      apply Acts.change
      split
      · exact Acts.pure (.inl ⟨rfl, rfl, rfl⟩)
      · exact Acts.throw (.inl ⟨rfl, rfl, rfl⟩)
    · exact Acts.throw (.inl (.refl n))
  | _ => exact Acts.throw (.inl (.refl n))

/-! ### Cells -/

/-- A link that ended here goes on to a hop whose handshake does not fit back. -/
structure Overfull (n : Node) (id : UInt32) (t : List Sent) (n' : Node) (s : Sent) (link : UInt32)
    (returned : Bytes) : Prop where
  sent : t = [s]
  returns : s.Returns link returned
  extended : n.links.extend id ⟨s.dest, link⟩ = .ok n'.links
  long : ¬ FitsBack (8 + returned.length)

/-- What a failed cell leaves behind. -/
def Failed (n : Node) (id : UInt32) (t : List Sent) (n' : Node) : Prop :=
  n'.registry.holdings = n.registry.holdings ∧
    (n'.links = n.links ∨ ∃ s link returned, Overfull n id t n' s link returned)

theorem Unchanged.failed (h : Unchanged n n') : Failed n id t n' := ⟨h.sessions, .inl h.links⟩

/-- A handshake that no frame can hold fits no cell either. -/
theorem not_fitsBack_of_lt {length : Nat} (h : maxPayload < 4 + length) :
    ¬ FitsBack (8 + length) := by
  unfold FitsBack
  omega

/-- Once the command is done, the cell fails only if the reply does not fit. -/
theorem acts_reply {t₁ : List Sent} {res₁ : Except TunnelError Bytes} {n₁ : Node}
    {reply : Bytes} (hx : n.registry.holdings id = some x) (husable : x.Usable)
    (h : Unchanged n n₁ ∨ Extension n id t₁ res₁ n₁) (hres₁ : res₁ = .ok reply) :
    Acts n₁ (encryptLayers [id] reply) fun t res n' =>
      ∀ e, res = .error e → Failed n id (t₁ ++ t) n' := by
  obtain hsame | hextended := h
  · have hx₁ : n₁.registry.holdings id = some x := by rw [hsame.sessions, hx]
    refine (acts_encryptLayer hx₁ husable reply).mono ?_
    rintro t res n' ⟨-, hsame', -⟩ e -
    exact (hsame.trans hsame').failed
  · cases hextended with
    | declined _ herror =>
      obtain ⟨e, rfl⟩ := herror
      cases hres₁
    | joined s link returned hreturns hlinks hsessions hres =>
      have hx₁ : n₁.registry.holdings id = some x := by rw [hsessions, hx]
      refine (acts_encryptLayer hx₁ husable reply).mono ?_
      rintro t res n' ⟨rfl, hsame', hfit⟩ e rfl
      refine ⟨hsame'.sessions.trans hsessions, .inr ⟨s, link, returned, rfl, hreturns, ?_, ?_⟩⟩
      · rw [hsame'.links, hlinks]
      · obtain ⟨-, _, ⟨⟩⟩ | ⟨hlong, -⟩ := hfit
        obtain ⟨_, hok, hlength⟩ | ⟨⟨_, herror⟩, -⟩ := hres
        · obtain rfl := Except.ok.inj (hres₁.symm.trans hok)
          rwa [hlength] at hlong
        · exact (ok_ne_error hres₁ herror).elim
    | own new y reply' hfree hsessions hshort =>
      obtain rfl := Except.ok.inj hres₁
      have hne : id ≠ new := by
        rintro rfl
        cases hfree.symm.trans hx
      have hx₁ : n₁.registry.holdings id = some x := by
        rw [hsessions, Function.update_of_ne hne, hx]
      refine (acts_encryptLayer hx₁ husable reply').mono ?_
      rintro t res n' ⟨-, -, ⟨-, _, rfl⟩ | ⟨hlong, -⟩⟩ e he
      · cases he
      · refine (hlong ?_).elim
        have hoverhead : overhead = 48 := rfl
        simp only [FitsBack, hoverhead, layerReplyHeader, maxPayload, maxFrame, headerLength]
        omega

/-- The answer to a cell fails once its command is done, or before that. -/
theorem acts_answerReply {command : Action Bytes} (hx : n.registry.holdings id = some x)
    (husable : x.Usable)
    (hcommand : Acts n command fun t res n' => Unchanged n n' ∨ Extension n id t res n') :
    Acts n (command >>= fun reply => encryptLayers [id] reply) fun t res n' =>
      ∀ e, res = .error e → Failed n id t n' := by
  refine hcommand.bind ?_ ?_
  · intro t reply n₁ h
    exact acts_reply hx husable h rfl
  · rintro t _ n₁ (hsame | hextended) e -
    · exact hsame.failed
    · cases hextended with
      | declined hsame _ => exact hsame.failed
      | joined s link returned hreturns hlinks hsessions hres =>
        obtain ⟨_, ⟨⟩, -⟩ | ⟨-, hlong⟩ := hres
        exact ⟨hsessions, .inr ⟨s, link, returned, rfl, hreturns, hlinks,
          not_fitsBack_of_lt hlong⟩⟩

theorem Unchanged.then_failed {n₁ : Node} (h : Unchanged n n₁) (h' : Failed n₁ id t n') :
    Failed n id t n' := by
  obtain ⟨hsessions, hlinks⟩ := h'
  refine ⟨hsessions.trans h.sessions, hlinks.imp (·.trans h.links) ?_⟩
  rintro ⟨s, link, returned, hoverfull⟩
  exact ⟨s, link, returned, { hoverfull with extended := h.links ▸ hoverfull.extended }⟩

theorem acts_handleCell (id : UInt32) (data : Bytes) :
    Acts n (handleCell id data) fun t res n' => ∀ e, res = .error e → Failed n id t n' := by
  apply Acts.get
  cases hlink : n.links.get? id with
  | none => exact Acts.throw fun _ _ => (Unchanged.refl n).failed
  | some link =>
    refine (acts_decryptLayer id data).bind ?_ ?_
    · rintro _ command n₁ ⟨rfl, hsame, ⟨x, _, hx, husable, -, ⟨⟩⟩ | ⟨⟨_, ⟨⟩⟩, -⟩⟩
      have hlink₁ : n₁.links.get? id = some link := by rw [hsame.links, hlink]
      have hx₁ : n₁.registry.holdings id = some x := by rw [hsame.sessions, hx]
      obtain ⟨peer, _ | next⟩ := link
      · refine (acts_answerReply hx₁ husable (acts_execute hlink₁ command)).mono ?_
        intro t res n' h e he
        exact hsame.then_failed (h e he)
      · refine (acts_answerReply hx₁ husable ((acts_sendCell_anywhere next.address next.link
          command).mono fun _ _ _ => .inl)).mono ?_
        intro t res n' h e he
        exact hsame.then_failed (h e he)
    · rintro t e n₁ ⟨-, hsame, -⟩ _ -
      exact hsame.failed

/-- A hop that answers a cell with an error has the sessions and the links that it had, whatever the
hops after it have answered, unless the cell was the command to extend its link by a hop whose
handshake does not fit the cell that should carry it back. Then the link goes on to that hop. -/
theorem failed_of_cell_error
    (h : Runs (answerPeers (.tunnelData id data)) n t (some (failure .tunnelData id)) n') :
    Failed n id t n' := by
  have hanswer : Comes n (answerPeers (.tunnelData id data)) fun t reply n' =>
      reply = some (failure .tunnelData id) → Failed n id t n' := by
    refine Comes.bind (acts_handleCell id data) ?_
    intro t res n₁ hfailed
    cases res with
    | ok reply => exact Comes.pure nofun
    | error e =>
      apply Comes.pure
      rw [List.append_nil]
      exact fun _ => hfailed e rfl
  exact hanswer t _ n' h rfl

/-! ### Handshakes that do not fit -/

/-- A hop reads a cell as the command to extend a link, which ends there, by a hop among the
others. -/
structure Extends (n : Node) (id : UInt32) (data command : Bytes) (x : Session) (nextHop : Address) :
    Prop where
  link : ∃ peer, n.links.get? id = some ⟨peer, none⟩
  session : n.registry.holdings id = some x
  usable : x.Usable
  opens : Peels [x.inward] data command
  fits : 4 + 4 + data.length ≤ maxPayload
  command : ∃ incoming hostkey handshake,
    Message.decode command = .ok (.tunnelExtend nextHop incoming) ∧
    Message.decode incoming = .ok (.incomingHandshake1 hostkey handshake)
  other : nextHop ≠ n.sessionService

/-- The command is passed to the next hop by one message. If a link comes back, the link here goes on
there. -/
theorem Extends.acts_execute (h : Extends n id data command x nextHop) {n₁ : Node} {peer : Identity}
    (hlink : n.links.get? id = some ⟨peer, none⟩) (hsame : Unchanged n n₁) :
    Acts n₁ (execute id peer command) fun t res n' => ∃ s, t = [s] ∧ s.dest = nextHop ∧
      (∃ hostkey handshake, s.message = .incomingHandshake1 hostkey handshake) ∧
      n'.registry.holdings id = some x ∧ ∀ link returned, s.Returns link returned →
        n.links.extend id ⟨nextHop, link⟩ = .ok n'.links ∧
        ((∃ reply, res = .ok reply ∧ reply.length = 8 + returned.length) ∨
          (∃ e, res = .error e) ∧ maxPayload < 4 + returned.length) := by
  obtain ⟨incoming, hostkey, handshake, hcommand, hincoming⟩ := h.command
  refine acts_ofFrame_ok hcommand ((acts_extendLink_other (hsame.links.symm ▸ hlink) hincoming
    (hsame.service.symm ▸ h.other)).mono ?_)
  rintro _ res n' ⟨s, rfl, hdest, hmessage, hdone⟩
  have hx : n₁.registry.holdings id = some x := by rw [hsame.sessions, h.session]
  refine ⟨s, rfl, hdest, ⟨hostkey, handshake, hmessage⟩, ?_⟩
  obtain ⟨hnothing, -, rfl⟩ | ⟨link, returned, hreturns, hlinks, hregistry, hres⟩ := hdone
  · exact ⟨hx, fun link returned hreturns => (hnothing link returned hreturns).elim⟩
  · refine ⟨hregistry ▸ hx, ?_⟩
    intro link' returned' hreturns'
    obtain ⟨⟩ := Except.ok.inj (hreturns.symm.trans hreturns')
    exact ⟨hsame.links ▸ hlinks, hres⟩

/-- The cell is passed to the next hop by one message. If a link comes back, the link here goes on
there, and the cell fails exactly if the handshake that comes with it does not fit back. -/
theorem Extends.acts_handleCell (h : Extends n id data command x nextHop) :
    Acts n (handleCell id data) fun t res n' => ∃ s, t = [s] ∧ s.dest = nextHop ∧
      (∃ hostkey handshake, s.message = .incomingHandshake1 hostkey handshake) ∧
      ∀ link returned, s.Returns link returned → n.links.extend id ⟨nextHop, link⟩ = .ok n'.links ∧
        ((∃ e, res = .error e) ↔ ¬ FitsBack (8 + returned.length)) := by
  obtain ⟨peer, hlink⟩ := h.link
  apply Acts.get
  rw [hlink]
  refine (acts_decryptLayer id data).bind ?_ ?_
  · rintro _ command' n₁ ⟨rfl, hsame, ⟨x', _, hx', -, hpeels, ⟨⟩⟩ | ⟨⟨_, ⟨⟩⟩, -⟩⟩
    obtain rfl := Option.some.inj (h.session.symm.trans hx')
    obtain rfl := h.opens.unique hpeels
    refine (h.acts_execute hlink hsame).bind ?_ ?_
    · rintro _ reply n₂ ⟨s, rfl, hdest, hmessage, hx₂, hdone⟩
      refine (acts_encryptLayer hx₂ h.usable reply).mono ?_
      rintro _ res n' ⟨rfl, hsame', hback⟩
      refine ⟨s, rfl, hdest, hmessage, ?_⟩
      intro link returned hreturns
      obtain ⟨hlinks, ⟨_, ⟨⟩, hlength⟩ | ⟨⟨_, ⟨⟩⟩, -⟩⟩ := hdone link returned hreturns
      refine ⟨hsame'.links ▸ hlinks, ?_⟩
      rw [hlength] at hback
      obtain ⟨hfits, _, rfl⟩ | ⟨hlong, herror⟩ := hback
      · constructor
        · rintro ⟨_, ⟨⟩⟩
        · exact fun hlong => (hlong hfits).elim
      · exact ⟨fun _ => hlong, fun _ => herror⟩
    · rintro _ e n₂ ⟨s, rfl, hdest, hmessage, -, hdone⟩
      refine ⟨s, rfl, hdest, hmessage, ?_⟩
      intro link returned hreturns
      obtain ⟨hlinks, ⟨_, ⟨⟩, -⟩ | ⟨-, hlong⟩⟩ := hdone link returned hreturns
      exact ⟨hlinks, fun _ => not_fitsBack_of_lt hlong, fun _ => ⟨e, rfl⟩⟩
  · rintro t e n₁ ⟨-, -, ⟨_, _, -, -, -, ⟨⟩⟩ | ⟨-, hclosed⟩⟩
    exact absurd h.fits (Nat.not_le_of_lt (hclosed x command h.session h.usable h.opens))

/-- The answer to the cell. -/
theorem Extends.comes_answer (h : Extends n id data command x nextHop) :
    Comes n (answerPeers (.tunnelData id data)) fun t reply n' => ∃ s, t = [s] ∧ s.dest = nextHop ∧
      (∃ hostkey handshake, s.message = .incomingHandshake1 hostkey handshake) ∧
      ∀ link returned, s.Returns link returned → n.links.extend id ⟨nextHop, link⟩ = .ok n'.links ∧
        (reply = some (failure .tunnelData id) ↔ ¬ FitsBack (8 + returned.length)) := by
  refine Comes.bind h.acts_handleCell ?_
  rintro _ res n' ⟨s, rfl, hdest, hmessage, hdone⟩
  cases res with
  | ok reply =>
    refine Comes.pure ⟨s, rfl, hdest, hmessage, fun link returned hreturns => ?_⟩
    obtain ⟨hlinks, hfails⟩ := hdone link returned hreturns
    refine ⟨hlinks, nofun, fun hlong => ?_⟩
    obtain ⟨_, ⟨⟩⟩ := hfails.2 hlong
  | error e =>
    refine Comes.pure ⟨s, rfl, hdest, hmessage, fun link returned hreturns => ?_⟩
    obtain ⟨hlinks, hfails⟩ := hdone link returned hreturns
    exact ⟨hlinks, fun _ => hfails.1 ⟨e, rfl⟩, fun _ => rfl⟩

/-- What is on record of a replayed run was answered by the rule. -/
theorem outcome_of_mem_replay {α : Type} {now : Instant} {others : Address → Message → Outcome}
    (p : Program Node α) (n : Node) {s : Sent} (h : s ∈ (replay now others p n).1) :
    s.outcome = others s.dest s.message := by
  induction p generalizing n with
  | done a => cases h
  | read k ih => exact ih now n n h
  | write s' p ih => exact ih s' h
  | send dest m limit k ih =>
      rw [replay] at h
      split at h
      · exact ih _ _ h
      · obtain rfl | h := List.mem_cons.1 h
        · rfl
        · exact ih _ n h

/-- An established session that others have opened. -/
def openedSession : Session where
  handshake := ⟨.responder, .established⟩
  peer := farHop.identity
  sharedKey := List.replicate 16 1
  localMac := List.replicate 16 2
  remoteMac? := some (List.replicate 16 3)
  lastActivity := 0

/-- A node with a link that ends there. -/
def openedNode : Node :=
  { loopNode with
    registry := { loopNode.registry with sessions := .insert .empty 5 openedSession }
    links := .accept .empty 5 farHop.identity }

/-- The frame of a message. -/
def frameOf (m : Message) : Bytes := m.encode.toOption.getD []

/-- The command to extend a link by the far hop. -/
def extension : Bytes := frameOf (.tunnelExtend farHop.address (frameOf (.incomingHandshake1 [] [])))

/-- The command in the layer of the link. -/
def extensionCell : Bytes :=
  (wrap openedSession.inward.1 openedSession.inward.2 (List.replicate 16 0) extension).toOption.getD
    []

/-- A handshake that a message can hold, and that does not fit back. -/
def longHandshake : Bytes := List.replicate 65472 0

theorem extends_openedNode :
    Extends openedNode 5 extensionCell extension openedSession farHop.address := by
  obtain ⟨body, -, hwrap⟩ := @wrap_of_valid openedSession.inward.1 openedSession.inward.2
    (List.replicate 16 0) extension (by decide)
  have hcell : wrap openedSession.inward.1 openedSession.inward.2 (List.replicate 16 0) extension =
      .ok extensionCell := by
    rw [extensionCell, hwrap]
    rfl
  have hlength : extensionCell.length = extension.length + overhead := length_wrap rfl hcell
  refine ⟨⟨farHop.identity, rfl⟩, rfl, ⟨rfl, by decide, rfl⟩, ?_, ?_, ?_, by decide +kernel⟩
  · exact ⟨extension, unwrap_wrap rfl hcell, rfl⟩
  · rw [hlength]
    decide +kernel
  · exact ⟨frameOf (.incomingHandshake1 [] []), [], [], by decide +kernel, by decide +kernel⟩

theorem exists_overfull : ∃ t n',
    Runs (answerPeers (.tunnelData 5 extensionCell)) openedNode t (some (failure .tunnelData 5)) n' ∧
    (∀ s ∈ t, s.Returns 7 longHandshake) ∧
    openedNode.links.extend 5 ⟨farHop.address, 7⟩ = .ok n'.links := by
  let others : Address → Message → Outcome := fun _ _ =>
    .ok (some (.sessionHandshake2 7 longHandshake))
  have hrun := runs_replay 0 others (answerPeers (.tunnelData 5 extensionCell)) openedNode
  have hreturns : ∀ s ∈ (replay 0 others (answerPeers (.tunnelData 5 extensionCell)) openedNode).1,
      s.Returns 7 longHandshake := fun s hs => outcome_of_mem_replay _ _ hs
  have hlong : ¬ FitsBack (8 + longHandshake.length) := by
    rw [longHandshake, List.length_replicate]
    unfold FitsBack
    decide
  obtain ⟨s, hsent, -, -, hdone⟩ := extends_openedNode.comes_answer _ _ _ hrun
  obtain ⟨hlinks, hreply⟩ := hdone 7 longHandshake (hreturns s (hsent ▸ List.mem_singleton_self s))
  exact ⟨_, _, hreply.2 hlong ▸ hrun, hreturns, hlinks⟩

/-- A cell fails, and the hop's sessions are as they were. -/
theorem failed_of_cell_error_long : ∃ t n',
    Runs (answerPeers (.tunnelData 5 extensionCell)) openedNode t (some (failure .tunnelData 5)) n' ∧
    Failed openedNode 5 t n' := by
  obtain ⟨t, n', hrun, -⟩ := exists_overfull
  exact ⟨t, n', hrun, failed_of_cell_error hrun⟩

/-- A cell fails though its command has been done: the next hop returns a handshake that is read as
it was written, the hop that should pass it back answers with an error, and the link goes on. -/
theorem not_unchanged_of_cell_error :
    Message.transmit (.sessionHandshake2 7 longHandshake) =
        .ok (.sessionHandshake2 7 longHandshake) ∧
    ∃ t n', Runs (answerPeers (.tunnelData 5 extensionCell)) openedNode t
        (some (failure .tunnelData 5)) n' ∧
      (∀ s ∈ t, s.Returns 7 longHandshake) ∧
      openedNode.links.get? 5 = some ⟨farHop.identity, none⟩ ∧
      n'.links.get? 5 = some ⟨farHop.identity, some ⟨farHop.address, 7⟩⟩ := by
  refine ⟨Message.transmit_of_plain rfl ?_, ?_⟩
  · rw [Message.payloadLength, longHandshake, List.length_replicate]
    decide
  · obtain ⟨t, n', hrun, hreturns, hlinks⟩ := exists_overfull
    refine ⟨t, n', hrun, hreturns, rfl, ?_⟩
    rw [← Except.ok.inj hlinks]
    rfl

end Node

end OnionTunnel
