import OnionTunnel.Session.Service
import OnionTunnel.Proofs.Message.RoundTrip
import OnionTunnel.Proofs.Session.Layers

/-!
# What session requests are answered with

A request that can be met changes the holdings as its action does and is answered in kind. Any
other one leaves them as they were and is declined.
-/

namespace OnionTunnel

/-- A key that others read is short enough for a frame. -/
theorem Hostkey.size_le_of_parse {hostkey : Bytes} {key : Rsa.PublicKey}
    (h : Hostkey.parse hostkey = .ok key) : key.size ≤ 512 := by
  unfold Hostkey.parse at h
  split at h
  · cases h
  · next k _ =>
    split at h
    · next hsound =>
      obtain rfl := Except.ok.inj h
      unfold Rsa.PublicKey.presentedFault? at hsound
      split at hsound
      · cases hsound
      · next hshort =>
        simp only [Rsa.maxModulusBits] at hshort
        unfold Rsa.PublicKey.size Bytes.byteLength
        omega
    · cases h

namespace Message

theorem embedded1_of_encode {key mac f : Bytes} (h : (handshake1 key mac).encode = .ok f)
    (hne : key ≠ []) : embedded1 f = .ok (key, mac) := by
  have hdecode := decode_canonical h (by simp [Blank, hne])
  rw [embedded1, hdecode]
  rfl

theorem embedded2_of_encode {block f : Bytes} (h : (handshake2 block).encode = .ok f)
    (hne : block ≠ []) : embedded2 f = .ok block := by
  have hdecode := decode_canonical h (by simp [Blank, hne])
  rw [embedded2, hdecode]
  rfl

end Message

namespace SessionRegistry

open Function

/-- A registry answers a message, gets to a setting, and ends with a reply and holdings of which a
statement is true. -/
def Replies (R : Setting) (r : SessionRegistry) (now : Instant) (m : Message)
    (Q : Option Message → Holdings → Prop) : Prop :=
  (r.handle now m).2.setting = R ∧ Q (r.handle now m).1 (r.handle now m).2.holdings

/-- In every registry of a setting and with holdings, a message is answered with a reply and
holdings of which a statement is true. -/
def Answers (R : Setting) (v : Holdings) (now : Instant) (m : Message)
    (Q : Option Message → Holdings → Prop) : Prop :=
  ∀ r : SessionRegistry, r.setting = R → r.holdings = v → Replies R r now m Q

/-- The second handshake of a session that was accepted fits a frame. -/
theorem Accepted.encode_ok {R : Setting} {hostkey keyBlock macBlock block : Bytes} {y : Session}
    (h : Accepted R hostkey keyBlock macBlock y block) :
    ∃ f, (Message.handshake2 block).encode = .ok f := by
  obtain ⟨key, hkey, hblock⟩ := h.sealed
  have hsize := Hostkey.size_le_of_parse hkey
  have hmax : maxPayload = 65531 := rfl
  apply Message.exists_encode
  · rw [Message.payloadLength, hblock.length_eq]
    omega
  · exact Nat.zero_le _
  · trivial

/-- The first handshake of a session that was started fits a frame. -/
theorem Started.encode_ok {hostkey keyBlock macBlock : Bytes} {x : Session}
    (h : Started hostkey x keyBlock macBlock) :
    ∃ f, (Message.handshake1 keyBlock macBlock).encode = .ok f := by
  obtain ⟨key, hkey, hkeyBlock, hmacBlock⟩ := h.sealed
  have hsize := Hostkey.size_le_of_parse hkey
  have hmax : maxPayload = 65531 := rfl
  apply Message.exists_encode
  · rw [Message.payloadLength, hkeyBlock.length_eq, hmacBlock.length_eq]
    omega
  · exact Nat.zero_le _
  · exact hkeyBlock.length_eq.trans hmacBlock.length_eq.symm

section Requests
variable {R : Setting} {v : Holdings} {now : Instant}

theorem Replies.mono {r : SessionRegistry} {m : Message} {P Q : Option Message → Holdings → Prop}
    (hm : Replies R r now m P) (h : ∀ reply v', P reply v' → Q reply v') : Replies R r now m Q :=
  ⟨hm.1, h _ _ hm.2⟩

/-- A reply is what an action ends with, or says that it failed. -/
theorem handle_eq (now : Instant) (m : Message) (r : SessionRegistry) :
    r.handle now m =
      match (dispatch now m).result r with
      | (.ok reply, r') => (reply, r')
      | (.error _, r') => (some .sessionDeclined, r') := rfl

/-- A request is answered by what its action comes to; a failure is declined. -/
theorem replies_of_gives {r : SessionRegistry} {m : Message}
    {P : Except SessionError (Option Message) → Holdings → Prop}
    {Q : Option Message → Holdings → Prop} (hm : Gives R r (dispatch now m) P)
    (hok : ∀ reply v', P (.ok reply) v' → Q reply v')
    (herror : ∀ e v', P (.error e) v' → Q (some .sessionDeclined) v') : Replies R r now m Q := by
  obtain ⟨hset, hP⟩ := hm
  rw [Replies, handle_eq]
  split
  · next reply r' heq =>
    rw [heq] at hset hP
    exact ⟨hset, hok reply _ hP⟩
  · next e r' heq =>
    rw [heq] at hset hP
    exact ⟨hset, herror e _ hP⟩

theorem answers_of_ensures {m : Message} {P : Except SessionError (Option Message) → Holdings → Prop}
    {Q : Option Message → Holdings → Prop} (hm : Ensures R v (dispatch now m) P)
    (hok : ∀ reply v', P (.ok reply) v' → Q reply v')
    (herror : ∀ e v', P (.error e) v' → Q (some .sessionDeclined) v') : Answers R v now m Q :=
  fun r hR hv => replies_of_gives (hm r hR hv) hok herror

theorem ofFrame_ensures {α : Type} {x : Except FrameError α} {a : α} (h : x = .ok a) :
    Ensures R v (ofFrame x) fun res v' => ∃ a', res = .ok a' ∧ a' = a ∧ v' = v := by
  subst h
  exact Ensures.pure ⟨a, rfl, rfl, rfl⟩

/-- A waiting session and the first handshake that offers it. Some keypairs open the handshake to
what was sealed in it, if they open it at all. -/
structure Offered (F : Keypair → Prop) (hostkey : Bytes) (x : Session) (handshake : Bytes) :
    Prop where
  handshake_eq : x.handshake = ⟨.initiator, .awaitingConfirm⟩
  peer_eq : x.peer = .ofHostkey hostkey
  length_sharedKey : x.sharedKey.length = keyLength
  length_le : handshake.length ≤ 1028
  blocks : ∃ keyBlock macBlock, Message.embedded1 handshake = .ok (keyBlock, macBlock) ∧
    (∃ key, Hostkey.parse hostkey = .ok key ∧ key.Seals x.sharedKey keyBlock ∧
      key.Seals x.localMac macBlock) ∧
    ∀ k, F k → ∀ secret mac, k.decrypt keyBlock = .ok secret →
      k.decrypt macBlock = .ok mac → secret = x.sharedKey ∧ mac = x.localMac

theorem Offered.mono {F F' : Keypair → Prop} {hostkey handshake : Bytes} {x : Session}
    (h : Offered F hostkey x handshake) (hF : ∀ k, F' k → F k) :
    Offered F' hostkey x handshake := by
  obtain ⟨keyBlock, macBlock, hblocks, hsealed, hopen⟩ := h.blocks
  exact { h with blocks := ⟨keyBlock, macBlock, hblocks, hsealed, fun k hk => hopen k (hF k hk)⟩ }

theorem replies_sessionStart (r : SessionRegistry) (hostkey : Bytes) :
    Replies r.setting r now (.sessionStart hostkey) fun reply v' =>
      (∃ id handshake x, reply = some (.sessionHandshake1 id handshake) ∧ r.holdings id = none ∧
        v' = update r.holdings id (some x) ∧
        Offered (Faithful r now hostkey) hostkey x handshake) ∨
      reply = some .sessionDeclined ∧ (Startable hostkey → ¬ Spare r) ∧ v' = r.holdings := by
  refine replies_of_gives (P := fun res v' =>
    (∃ id handshake x, res = .ok (some (.sessionHandshake1 id handshake)) ∧ r.holdings id = none ∧
      v' = update r.holdings id (some x) ∧
      Offered (Faithful r now hostkey) hostkey x handshake) ∨
    (∃ e, res = .error e) ∧ (Startable hostkey → ¬ Spare r) ∧ v' = r.holdings) ?_ ?_ ?_
  · refine (start_faithful r now hostkey).bind ?_ ?_
    · rintro ⟨id, keyBlock, macBlock⟩ _
        (⟨_, _, _, x, ⟨⟩, hfree, rfl, hstarted, hfaithful⟩ | ⟨⟨_, ⟨⟩⟩, _⟩)
      obtain ⟨key, hkey, hkeyBlock, hmacBlock⟩ := hstarted.sealed
      have hsize := Hostkey.size_le_of_parse hkey
      obtain ⟨f, hf⟩ := hstarted.encode_ok
      have hne : keyBlock ≠ [] := hkeyBlock.ne_nil
      refine (ofFrame_ensures hf).andThen ?_
      rintro _ _ ⟨rfl, rfl⟩
      refine Ensures.pure (.inl ⟨id, _, x, rfl, hfree, rfl, hstarted.handshake_eq,
        hstarted.peer_eq, hstarted.length_sharedKey, ?_, keyBlock, macBlock,
        Message.embedded1_of_encode hf hne, ⟨key, hkey, hkeyBlock, hmacBlock⟩, hfaithful⟩)
      rw [Message.length_of_encode hf, Message.payloadLength, hkeyBlock.length_eq,
        hmacBlock.length_eq, headerLength]
      omega
    · rintro e _ (⟨_, _, _, _, ⟨⟩, _⟩ | ⟨-, hreason, rfl⟩)
      exact .inr ⟨⟨e, rfl⟩, hreason, rfl⟩
  · rintro _ _ (⟨id, handshake, x, ⟨⟩, h⟩ | ⟨⟨_, ⟨⟩⟩, _⟩)
    exact .inl ⟨id, handshake, x, rfl, h⟩
  · rintro _ _ (⟨_, _, _, ⟨⟩, _⟩ | ⟨-, h⟩)
    exact .inr ⟨rfl, h⟩

/-- An established session and the second handshake that answers the first. -/
structure Answered (R : Setting) (hostkey handshake : Bytes) (y : Session) (returned : Bytes) :
    Prop where
  handshake_eq : y.handshake = ⟨.responder, .established⟩
  peer_eq : y.peer = .ofHostkey hostkey
  valid : Aes.validLength y.sharedKey.length
  length_le : returned.length ≤ 516
  opened : ∃ keyBlock macBlock mac, Message.embedded1 handshake = .ok (keyBlock, macBlock) ∧
    R.keypair.decrypt keyBlock = .ok y.sharedKey ∧ R.keypair.decrypt macBlock = .ok mac ∧
    y.remoteMac? = some mac
  sealed : ∃ key block, Hostkey.parse hostkey = .ok key ∧ key.Seals y.localMac block ∧
    Message.embedded2 returned = .ok block

/-- The handshake holds blocks that a registry can accept. -/
def Welcomes (R : Setting) (hostkey handshake : Bytes) : Prop :=
  ∃ keyBlock macBlock, Message.embedded1 handshake = .ok (keyBlock, macBlock) ∧
    Acceptable R hostkey keyBlock macBlock

theorem replies_incomingHandshake1 (r : SessionRegistry) (hostkey handshake : Bytes) :
    Replies r.setting r now (.incomingHandshake1 hostkey handshake) fun reply v' =>
      (∃ id returned y, reply = some (.sessionHandshake2 id returned) ∧ r.holdings id = none ∧
        v' = update r.holdings id (some y) ∧ Answered r.setting hostkey handshake y returned) ∨
      reply = some .sessionDeclined ∧ v' = r.holdings ∧
        (Welcomes r.setting hostkey handshake → ¬ Spare r) := by
  refine replies_of_gives (P := fun res v' =>
    (∃ id returned y, res = .ok (some (.sessionHandshake2 id returned)) ∧ r.holdings id = none ∧
      v' = update r.holdings id (some y) ∧ Answered r.setting hostkey handshake y returned) ∨
    (∃ e, res = .error e) ∧ v' = r.holdings ∧
      (Welcomes r.setting hostkey handshake → ¬ Spare r)) ?_ ?_ ?_
  · rw [dispatch]
    cases hblocks : Message.embedded1 handshake with
    | error e =>
      refine (Ensures.throw (Q := fun res v' => (∃ e, res = .error e) ∧ v' = r.holdings)
        ⟨⟨_, rfl⟩, rfl⟩ r rfl rfl).bind ?_ ?_
      · rintro _ _ ⟨⟨_, ⟨⟩⟩, _⟩
      · rintro e _ ⟨-, rfl⟩
        refine .inr ⟨⟨e, rfl⟩, rfl, ?_⟩
        rintro ⟨_, _, hok, -⟩
        exact (ok_ne_error hok hblocks).elim
    | ok blocks =>
      obtain ⟨keyBlock, macBlock⟩ := blocks
      refine (accept_gives r now hostkey keyBlock macBlock).bind ?_ ?_
      · rintro ⟨id, block⟩ _ (⟨_, _, y, ⟨⟩, hfree, rfl, haccepted⟩ | ⟨⟨_, ⟨⟩⟩, _⟩)
        obtain ⟨key, hkey, hblock⟩ := haccepted.sealed
        obtain ⟨mac, hmac, hremote⟩ := haccepted.openedMac
        have hsize := Hostkey.size_le_of_parse hkey
        obtain ⟨f, hf⟩ := haccepted.encode_ok
        refine (ofFrame_ensures hf).andThen ?_
        rintro _ _ ⟨rfl, rfl⟩
        refine Ensures.pure (.inl ⟨id, _, y, rfl, hfree, rfl, haccepted.handshake_eq,
          haccepted.peer_eq, haccepted.valid, ?_,
          ⟨keyBlock, macBlock, mac, hblocks, haccepted.opened, hmac, hremote⟩,
          key, block, hkey, hblock, Message.embedded2_of_encode hf hblock.ne_nil⟩)
        rw [Message.length_of_encode hf, Message.payloadLength, hblock.length_eq, headerLength]
        omega
      · rintro e _ (⟨_, _, _, ⟨⟩, _⟩ | ⟨-, hreason, rfl⟩)
        refine .inr ⟨⟨e, rfl⟩, rfl, ?_⟩
        rintro ⟨_, _, hok, hacceptable⟩
        obtain ⟨⟩ := Except.ok.inj (hblocks.symm.trans hok)
        exact hreason hacceptable
  · rintro _ _ (⟨id, returned, y, ⟨⟩, h⟩ | ⟨⟨_, ⟨⟩⟩, _⟩)
    exact .inl ⟨id, returned, y, rfl, h⟩
  · rintro _ _ (⟨_, _, _, ⟨⟩, _⟩ | ⟨-, h⟩)
    exact .inr ⟨rfl, h⟩

/-- A session that waits is established by a second handshake whose block opens. Any other second
handshake is declined. -/
theorem answers_incomingHandshake2 {id : UInt32} {x : Session} (h : v id = some x)
    (hx : x.handshake = ⟨.initiator, .awaitingConfirm⟩) (handshake : Bytes) :
    Answers R v now (.incomingHandshake2 id handshake) fun reply v' =>
      (∃ block mac, Message.embedded2 handshake = .ok block ∧ R.keypair.decrypt block = .ok mac ∧
        reply = some .sessionConfirmed ∧ v' = update v id
          (some { x with handshake := ⟨.initiator, .established⟩, remoteMac? := some mac })) ∨
      reply = some .sessionDeclined ∧ v' = v ∧
        ∀ block mac, Message.embedded2 handshake = .ok block → R.keypair.decrypt block ≠ .ok mac := by
  refine answers_of_ensures (P := fun res v' =>
    (∃ block mac, Message.embedded2 handshake = .ok block ∧ R.keypair.decrypt block = .ok mac ∧
      res = .ok (some .sessionConfirmed) ∧ v' = update v id
        (some { x with handshake := ⟨.initiator, .established⟩, remoteMac? := some mac })) ∨
    (∃ e, res = .error e) ∧ v' = v ∧
      ∀ block mac, Message.embedded2 handshake = .ok block → R.keypair.decrypt block ≠ .ok mac)
    ?_ ?_ ?_
  · cases hblock : Message.embedded2 handshake with
    | error e =>
      simp only [dispatch, hblock]
      exact Ensures.throw (.inr ⟨⟨_, rfl⟩, rfl, fun _ _ => nofun⟩)
    | ok block =>
      simp only [dispatch, hblock]
      refine (ofFrame_ensures rfl).andThen ?_
      rintro _ _ ⟨rfl, rfl⟩
      refine (confirm_ensures now h hx _).bind ?_ ?_
      · rintro _ _ (⟨mac, hmac, -, rfl⟩ | ⟨-, ⟨_, ⟨⟩⟩, -⟩)
        exact Ensures.pure (.inl ⟨_, mac, rfl, hmac, rfl, rfl⟩)
      · rintro e _ (⟨_, _, ⟨_, ⟨⟩⟩, _⟩ | ⟨⟨_, hclosed⟩, -, rfl⟩)
        refine .inr ⟨⟨e, rfl⟩, rfl, ?_⟩
        rintro _ mac ⟨⟩ hopen
        exact ok_ne_error hopen hclosed
  · rintro _ _ (⟨block, mac, hblock, hmac, ⟨⟩, rfl⟩ | ⟨⟨_, ⟨⟩⟩, _⟩)
    exact .inl ⟨block, mac, hblock, hmac, rfl, rfl⟩
  · rintro _ _ (⟨_, _, _, _, ⟨⟩, _⟩ | ⟨-, h'⟩)
    exact .inr ⟨rfl, h'⟩

theorem fitting_ensures (payload : Bytes) :
    Ensures R v (fitting payload) fun res v' =>
      (res = .ok payload ∧ payload.length + layerReplyHeader ≤ maxPayload ∨
        (∃ e, res = .error e) ∧ maxPayload < payload.length + layerReplyHeader) ∧ v' = v := by
  unfold fitting
  split
  · next hlong => exact Ensures.throw ⟨.inr ⟨⟨_, rfl⟩, hlong⟩, rfl⟩
  · next hshort => exact Ensures.pure ⟨.inl ⟨rfl, Nat.le_of_not_lt hshort⟩, rfl⟩

open Sealed in
theorem answers_layerEncrypt (request : UInt16) {ids : List UInt32} {xs : List Session}
    (h : ids.map v = xs.map some) (hxs : ∀ x ∈ xs, x.Usable) (payload : Bytes) :
    Answers R v now (.layerEncrypt request ids payload) fun reply v' =>
      ((∃ blob, reply = some (.layerEncrypted request blob) ∧
          Peels (xs.map Session.outward).reverse blob payload ∧
          blob.length = payload.length + overhead * xs.length ∧
          blob.length + layerReplyHeader ≤ maxPayload) ∨
        reply = some .sessionDeclined ∧
          maxPayload < payload.length + overhead * xs.length + layerReplyHeader) ∧
      v' = v := by
  refine answers_of_ensures (P := fun res v' =>
    ((∃ blob, res = .ok (some (.layerEncrypted request blob)) ∧
        Peels (xs.map Session.outward).reverse blob payload ∧
        blob.length = payload.length + overhead * xs.length ∧
        blob.length + layerReplyHeader ≤ maxPayload) ∨
      (∃ e, res = .error e) ∧
        maxPayload < payload.length + overhead * xs.length + layerReplyHeader) ∧ v' = v) ?_ ?_ ?_
  · have hkeys := map_outward?_of_usable h hxs
    have hvalid : ∀ k ∈ xs.map Session.outward, Aes.validLength k.1.length := by
      intro k hk
      obtain ⟨x, hx, rfl⟩ := List.mem_map.1 hk
      exact (hxs x hx).valid
    apply (layerEncrypt_ensures now ids payload).bind
    · rintro blob _ ⟨hblob, rfl⟩
      obtain ⟨_, ⟨⟩, hpeels, hlen⟩ := hblob _ hkeys hvalid
      rw [List.length_map] at hlen
      apply (fitting_ensures blob).bind
      · rintro _ _ ⟨⟨⟨⟩, hfit⟩ | ⟨⟨_, ⟨⟩⟩, _⟩, rfl⟩
        exact Ensures.pure ⟨.inl ⟨_, rfl, hpeels, hlen, hfit⟩, rfl⟩
      · rintro e _ ⟨⟨⟨⟩, _⟩ | ⟨-, hlong⟩, rfl⟩
        exact ⟨.inr ⟨⟨e, rfl⟩, hlen ▸ hlong⟩, rfl⟩
    · rintro e _ ⟨hblob, rfl⟩
      obtain ⟨_, ⟨⟩, _⟩ := hblob _ hkeys hvalid
  · rintro _ _ ⟨⟨blob, ⟨⟩, hblob⟩ | ⟨⟨_, ⟨⟩⟩, _⟩, rfl⟩
    exact ⟨.inl ⟨blob, rfl, hblob⟩, rfl⟩
  · rintro _ _ ⟨⟨_, ⟨⟩, _⟩ | ⟨-, hlong⟩, rfl⟩
    exact ⟨.inr ⟨rfl, hlong⟩, rfl⟩

open Sealed in
theorem answers_layerDecrypt (request : UInt16) {ids : List UInt32} {xs : List Session}
    (h : ids.map v = xs.map some) (hxs : ∀ x ∈ xs, x.Usable) (blob : Bytes) :
    Answers R v now (.layerDecrypt request ids blob) fun reply v' =>
      ((∃ text, reply = some (.layerDecrypted request text) ∧
          Peels (xs.map Session.inward).reverse blob text ∧
          text.length + layerReplyHeader ≤ maxPayload) ∨
        reply = some .sessionDeclined ∧ ∀ text, Peels (xs.map Session.inward).reverse blob text →
          maxPayload < text.length + layerReplyHeader) ∧
      v' = v := by
  refine answers_of_ensures (P := fun res v' =>
    ((∃ text, res = .ok (some (.layerDecrypted request text)) ∧
        Peels (xs.map Session.inward).reverse blob text ∧
        text.length + layerReplyHeader ≤ maxPayload) ∨
      (∃ e, res = .error e) ∧ ∀ text, Peels (xs.map Session.inward).reverse blob text →
        maxPayload < text.length + layerReplyHeader) ∧ v' = v) ?_ ?_ ?_
  · have hkeys := map_inward?_of_usable h hxs
    apply (layerDecrypt_ensures now ids blob).bind
    · rintro text _ ⟨htext, rfl⟩
      obtain ⟨_, hkeys', hpeels⟩ := (htext text).1 rfl
      obtain rfl := map_some_inj (hkeys.symm.trans hkeys')
      apply (fitting_ensures _).bind
      · rintro _ _ ⟨⟨⟨⟩, hfit⟩ | ⟨⟨_, ⟨⟩⟩, _⟩, rfl⟩
        exact Ensures.pure ⟨.inl ⟨_, rfl, hpeels, hfit⟩, rfl⟩
      · rintro e _ ⟨⟨⟨⟩, _⟩ | ⟨-, hlong⟩, rfl⟩
        exact ⟨.inr ⟨⟨e, rfl⟩, fun text' htext' => hpeels.unique htext' ▸ hlong⟩, rfl⟩
    · rintro e _ ⟨htext, rfl⟩
      refine ⟨.inr ⟨⟨e, rfl⟩, fun text hpeels => ?_⟩, rfl⟩
      cases (htext text).2 ⟨_, hkeys, hpeels⟩
  · rintro _ _ ⟨⟨text, ⟨⟩, htext⟩ | ⟨⟨_, ⟨⟩⟩, _⟩, rfl⟩
    exact ⟨.inl ⟨text, rfl, htext⟩, rfl⟩
  · rintro _ _ ⟨⟨_, ⟨⟩, _⟩ | ⟨-, hlong⟩, rfl⟩
    exact ⟨.inr ⟨rfl, hlong⟩, rfl⟩

theorem answers_sessionClose (id : UInt32) :
    Answers R v now (.sessionClose id) fun reply v' => reply = none ∧ v' = update v id none := by
  rintro r rfl rfl
  obtain ⟨hset, hholdings⟩ := holdings_close r id
  exact ⟨hset, rfl, hholdings⟩

theorem answers_tunnelData (link : UInt32) (data : Bytes) :
    Answers R v now (.tunnelData link data) fun reply v' => reply = none ∧ v' = v := by
  rintro r rfl rfl
  exact ⟨rfl, rfl, rfl⟩

theorem answers_tunnelDestroy (link : UInt32) :
    Answers R v now (.tunnelDestroy link) fun reply v' => reply = none ∧ v' = v := by
  rintro r rfl rfl
  exact ⟨rfl, rfl, rfl⟩

end Requests

end SessionRegistry

end OnionTunnel
