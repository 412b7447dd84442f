import OnionTunnel.Proofs.Session.Agreement
import OnionTunnel.Proofs.Session.Footprint

/-!
# The life of a session

A registry runs one operation after the other, each to its end. A session comes in under a new
identifier, waiting or established, and keeps its peer, its role, its key and its own tag key until
it goes. The peer's tag key is written once, when the session becomes established.

`Turn` is all that one operation can do to what is held under one identifier; `Life` says what the
operations since a session came in have done to it, and carries the induction over a run.
-/

namespace OnionTunnel

/-- A session waits for the second handshake without the peer's tag key, or is established and has
it. -/
inductive Session.Staged (x : Session) : Prop
  | awaiting (hstate : x.handshake = ⟨.initiator, .awaitingConfirm⟩) (hmac : x.remoteMac? = none)
  | established (hstate : x.handshake.state = .established) (hmac : x.remoteMac?.isSome = true)

/-- A session that waits does not have the peer's tag key. -/
theorem Session.Staged.remoteMac?_eq {x : Session} (h : x.Staged)
    (hstate : x.handshake = ⟨.initiator, .awaitingConfirm⟩) : x.remoteMac? = none := by
  cases h with
  | awaiting _ hmac => exact hmac
  | established hother =>
    rw [hstate] at hother
    cases hother

/-- Two sessions have the same peer, role, key and own tag key. -/
structure Session.Alike (x y : Session) : Prop where
  peer : x.peer = y.peer
  role : x.handshake.role = y.handshake.role
  sharedKey : x.sharedKey = y.sharedKey
  localMac : x.localMac = y.localMac

theorem Session.Alike.refl (x : Session) : x.Alike x := ⟨rfl, rfl, rfl, rfl⟩

theorem Session.Alike.trans {x y z : Session} (h : x.Alike y) (h' : y.Alike z) : x.Alike z where
  peer := h.peer.trans h'.peer
  role := h.role.trans h'.role
  sharedKey := h.sharedKey.trans h'.sharedKey
  localMac := h.localMac.trans h'.localMac

namespace SessionRegistry

open Function

/-! ### Operations -/

/-- An operation that is run to its end. -/
inductive Operation where
  | start (hostkey : Bytes)
  | accept (hostkey keyBlock macBlock : Bytes)
  | confirm (session : UInt32) (block : Bytes)
  | close (session : UInt32)
  | expire (limit : Duration)
  | encrypt (sessions : List UInt32) (payload : Bytes)
  | decrypt (sessions : List UInt32) (payload : Bytes)

/-- The outcome of an operation and the registry after it. -/
def Operation.run (now : Instant) (r : SessionRegistry) : Operation → Outcome × SessionRegistry
  | start hostkey =>
    (SessionRegistry.start now hostkey).outcome (fun s => .started s.1 s.2.1 s.2.2) r
  | accept hostkey keyBlock macBlock =>
    (SessionRegistry.accept now hostkey keyBlock macBlock).outcome (fun s => .accepted s.1 s.2) r
  | confirm session block => (SessionRegistry.confirm now session block).outcome (fun _ => .done) r
  | close session => (.done, r.close session)
  | expire limit => (.done, r.expire now limit)
  | encrypt sessions payload => (layerEncrypt now sessions payload).outcome .text r
  | decrypt sessions payload => (layerDecrypt now sessions payload).outcome .text r

/-- An operation that a registry ran, what it gave, and the registry before and after it. -/
structure Deed where
  before : SessionRegistry
  operation : Operation
  outcome : Outcome
  after : SessionRegistry

/-- The deed of running an operation. -/
def Operation.deed (now : Instant) (r : SessionRegistry) (op : Operation) : Deed :=
  ⟨r, op, (op.run now r).1, (op.run now r).2⟩

namespace Deed

/-- A session is started: the operation gives its identifier. -/
def Starts (d : Deed) (id : UInt32) : Prop :=
  ∃ keyBlock macBlock, d.outcome = .started id keyBlock macBlock

/-- A session is accepted: the operation gives its identifier. -/
def Accepts (d : Deed) (id : UInt32) : Prop :=
  ∃ block, d.outcome = .accepted id block

/-- A session comes in. -/
def Inserts (d : Deed) (id : UInt32) : Prop := d.Starts id ∨ d.Accepts id

/-- A confirmation of a session succeeds. -/
def Confirms (d : Deed) (id : UInt32) : Prop :=
  (∃ block, d.operation = .confirm id block) ∧ d.outcome = .done

/-- The operation is one that sessions go by. -/
def Drops (d : Deed) (id : UInt32) : Prop :=
  d.operation = .close id ∨ ∃ limit, d.operation = .expire limit

/-- What is held of the peer's tag key changes. -/
def rekeys (d : Deed) (id : UInt32) : Bool :=
  (d.before.holdings id).bind Session.remoteMac? ≠ (d.after.holdings id).bind Session.remoteMac?

/-- The session is established afterwards and was not before. -/
def establishes (d : Deed) (id : UInt32) : Bool :=
  !(d.before.holdings id).any Session.isEstablished &&
    (d.after.holdings id).any Session.isEstablished

/-- What a deed can do to what is held under an identifier. -/
inductive Turn (d : Deed) (id : UInt32) : Prop
  | kept (hins : ¬ d.Inserts id) (hcon : ¬ d.Confirms id)
      (hafter : d.after.holdings id = d.before.holdings id)
  | started {x : Session} (hstarts : d.Starts id) (hid : id ≠ 0)
      (hbefore : d.before.holdings id = none) (hafter : d.after.holdings id = some x)
      (hstate : x.handshake = ⟨.initiator, .awaitingConfirm⟩) (hmac : x.remoteMac? = none)
      (hvalid : Aes.validLength x.sharedKey.length)
  | accepted {x : Session} {mac : Bytes} (haccepts : d.Accepts id) (hid : id ≠ 0)
      (hbefore : d.before.holdings id = none) (hafter : d.after.holdings id = some x)
      (hstate : x.handshake = ⟨.responder, .established⟩) (hmac : x.remoteMac? = some mac)
      (hvalid : Aes.validLength x.sharedKey.length)
  | confirmed {x : Session} {mac : Bytes} (hins : ¬ d.Inserts id) (hcon : d.Confirms id)
      (hbefore : d.before.holdings id = some x)
      (hstate : x.handshake = ⟨.initiator, .awaitingConfirm⟩)
      (hafter : d.after.holdings id =
        some { x with handshake := ⟨.initiator, .established⟩, remoteMac? := some mac })
  | dropped (hins : ¬ d.Inserts id) (hcon : ¬ d.Confirms id) (hop : d.Drops id)
      (hafter : d.after.holdings id = none)

end Deed

/-! ### One operation -/

open SessionRegistry.Action (Grants)

section Steps
variable {now : Instant} {r : SessionRegistry} {id : UInt32}

theorem allocate_grants : Grants allocate (· ≠ 0) := by
  intro r id hid
  rw [allocate_result] at hid
  obtain ⟨ids, -, -, ⟨id', hfound, hne, -⟩ | ⟨⟨e, he⟩, -⟩⟩ :=
    r.ids.allocate_cases r.sessions.contains
  · rw [hfound] at hid
    obtain rfl := Except.ok.inj hid
    exact hne
  · rw [he] at hid
    cases hid

/-- A started session is not numbered zero. -/
theorem start_grants (now : Instant) (hostkey : Bytes) : Grants (start now hostkey) (·.1 ≠ 0) := by
  refine Grants.bind (.any _) ?_
  intro key _
  refine Grants.bind (.any _) ?_
  intro sharedKey _
  refine Grants.bind (.any _) ?_
  intro localMac _
  have hreserve : Grants (reserve now (.ofHostkey hostkey) sharedKey localMac) (· ≠ 0) := by
    refine allocate_grants.bind ?_
    intro id hid
    refine Grants.bind (.any _) ?_
    intro _ _
    exact .pure hid
  refine hreserve.bind ?_
  intro id hid
  refine Grants.bind (.any _) ?_
  intro blocks _
  refine Grants.bind (.any _) ?_
  intro _ _
  exact .pure hid

/-- An accepted session is not numbered zero. -/
theorem accept_grants (now : Instant) (hostkey keyBlock macBlock : Bytes) :
    Grants (accept now hostkey keyBlock macBlock) (·.1 ≠ 0) := by
  refine Grants.bind (.any _) ?_
  intro key _
  refine Grants.bind (.any _) ?_
  intro sharedKey _
  refine Grants.bind (.any _) ?_
  intro remoteMac _
  split
  · refine Grants.bind (.any _) ?_
    intro localMac _
    refine Grants.bind (.any _) ?_
    intro block _
    refine allocate_grants.bind ?_
    intro id hid
    refine Grants.bind (.any _) ?_
    intro s _
    refine Grants.bind (.any _) ?_
    intro _ _
    refine Grants.bind (.any _) ?_
    intro _ _
    exact .pure hid
  · exact .throw _ _

/-! ### What one operation can do -/

/-- An action that gives a text gives no session. -/
theorem text_or_failed (x : Action Bytes) (r : SessionRegistry) :
    (∃ text, (x.outcome .text r).1 = .text text) ∨ ∃ e, (x.outcome .text r).1 = .failed e := by
  cases hres : (x.result r).1 with
  | ok text => exact .inl ⟨text, outcome_of_result hres⟩
  | error e => exact .inr ⟨e, outcome_of_error hres⟩

namespace Deed

variable {d : Deed}

theorem not_inserts (hstarted : ∀ keyBlock macBlock, d.outcome ≠ .started id keyBlock macBlock)
    (haccepted : ∀ block, d.outcome ≠ .accepted id block) : ¬ d.Inserts id := by
  rintro (⟨keyBlock, macBlock, h⟩ | ⟨block, h⟩)
  · exact hstarted keyBlock macBlock h
  · exact haccepted block h

/-- A deed that gives no session and is not done has neither brought a session nor confirmed one. -/
theorem Turn.of_outcome (hstarted : ∀ keyBlock macBlock, d.outcome ≠ .started id keyBlock macBlock)
    (haccepted : ∀ block, d.outcome ≠ .accepted id block) (hdone : d.outcome ≠ .done)
    (hafter : d.after.holdings = d.before.holdings) : d.Turn id :=
  .kept (not_inserts hstarted haccepted) (fun h => hdone h.2) (congrFun hafter id)

theorem Turn.of_failed {e : SessionError} (hout : d.outcome = .failed e)
    (hafter : d.after.holdings = d.before.holdings) : d.Turn id := by
  refine Turn.of_outcome ?_ ?_ ?_ hafter <;> simp [hout]

theorem Turn.of_text (hout : (∃ text, d.outcome = .text text) ∨ ∃ e, d.outcome = .failed e)
    (hafter : d.after.holdings = d.before.holdings) : d.Turn id := by
  obtain ⟨text, hout⟩ | ⟨e, hout⟩ := hout
  · refine Turn.of_outcome ?_ ?_ ?_ hafter <;> simp [hout]
  · exact .of_failed hout hafter

end Deed

open Deed (Turn)

theorem start_after (now : Instant) (r : SessionRegistry) (hostkey : Bytes) :
    ((Operation.start hostkey).deed now r).after = ((start now hostkey).result r).2 :=
  snd_outcome _ _ r

theorem confirm_after (now : Instant) (r : SessionRegistry) (session : UInt32) (block : Bytes) :
    ((Operation.confirm session block).deed now r).after =
      ((confirm now session block).result r).2 :=
  snd_outcome _ _ r

theorem start_turn (now : Instant) (r : SessionRegistry) (hostkey : Bytes) (id : UInt32) :
    ((Operation.start hostkey).deed now r).Turn id := by
  have hafter := start_after now r hostkey
  obtain ⟨-, hstart⟩ := start_ensures now hostkey r rfl rfl
  obtain ⟨new, keyBlock, macBlock, x, hres, hfree, hholdings, hstarted⟩ |
    ⟨⟨e, herror⟩, hholdings⟩ := hstart
  · have hout : ((Operation.start hostkey).deed now r).outcome = .started new keyBlock macBlock :=
      outcome_of_result hres
    rw [← hafter] at hholdings
    by_cases hid : id = new
    · subst hid
      apply Turn.started (x := x)
      · exact ⟨keyBlock, macBlock, hout⟩
      · exact start_grants now hostkey r _ hres
      · exact hfree
      · rw [hholdings, update_self]
      · exact hstarted.handshake_eq
      · exact hstarted.remoteMac?_eq
      · rw [hstarted.length_sharedKey]
        decide
    · apply Turn.kept
      · apply Deed.not_inserts
        · rw [hout]
          rintro _ _ ⟨⟩
          exact hid rfl
        · simp [hout]
      · rintro ⟨⟨_, hop⟩, -⟩
        cases hop
      · rw [hholdings, update_of_ne hid]
        rfl
  · apply Turn.of_failed (outcome_of_error herror)
    rw [hafter, hholdings]
    rfl

theorem accept_turn (now : Instant) (r : SessionRegistry) (hostkey keyBlock macBlock : Bytes)
    (id : UInt32) : ((Operation.accept hostkey keyBlock macBlock).deed now r).Turn id := by
  have hafter : ((Operation.accept hostkey keyBlock macBlock).deed now r).after =
      ((accept now hostkey keyBlock macBlock).result r).2 := snd_outcome _ _ r
  obtain ⟨-, haccept⟩ := accept_ensures now hostkey keyBlock macBlock r rfl rfl
  obtain ⟨new, block, y, hres, hfree, hholdings, haccepted⟩ | ⟨⟨e, herror⟩, hholdings⟩ := haccept
  · have hout : ((Operation.accept hostkey keyBlock macBlock).deed now r).outcome =
        .accepted new block := outcome_of_result hres
    obtain ⟨mac, -, hmac⟩ := haccepted.openedMac
    rw [← hafter] at hholdings
    by_cases hid : id = new
    · subst hid
      apply Turn.accepted (x := y)
      · exact ⟨block, hout⟩
      · exact accept_grants now hostkey keyBlock macBlock r _ hres
      · exact hfree
      · rw [hholdings, update_self]
      · exact haccepted.handshake_eq
      · exact hmac
      · exact haccepted.valid
    · apply Turn.kept
      · apply Deed.not_inserts
        · simp [hout]
        · rw [hout]
          rintro _ ⟨⟩
          exact hid rfl
      · rintro ⟨⟨_, hop⟩, -⟩
        cases hop
      · rw [hholdings, update_of_ne hid]
        rfl
  · apply Turn.of_failed (outcome_of_error herror)
    rw [hafter, hholdings]
    rfl

theorem confirm_turn (now : Instant) (r : SessionRegistry) (session : UInt32) (block : Bytes)
    (id : UInt32) : ((Operation.confirm session block).deed now r).Turn id := by
  have hafter := confirm_after now r session block
  obtain ⟨-, hconfirm⟩ := confirm_cases now session block r rfl rfl
  obtain ⟨a, x, mac, hres, hx, hawaits, hholdings⟩ | ⟨⟨e, herror⟩, hholdings⟩ := hconfirm
  · have hout : ((Operation.confirm session block).deed now r).outcome = .done :=
      outcome_of_result hres
    have hins : ¬ ((Operation.confirm session block).deed now r).Inserts id := by
      apply Deed.not_inserts <;> simp [hout]
    rw [← hafter] at hholdings
    by_cases hid : id = session
    · subst hid
      apply Turn.confirmed hins ⟨⟨block, rfl⟩, hout⟩ hx hawaits
      rw [hholdings, update_self]
    · apply Turn.kept hins
      · rintro ⟨⟨_, hop⟩, -⟩
        exact hid (Operation.confirm.inj hop).1.symm
      · rw [hholdings, update_of_ne hid]
        rfl
  · apply Turn.of_failed (outcome_of_error herror)
    rw [hafter, hholdings]
    rfl

theorem close_turn (now : Instant) (r : SessionRegistry) (session id : UInt32) :
    ((Operation.close session).deed now r).Turn id := by
  have hins : ¬ ((Operation.close session).deed now r).Inserts id := by
    apply Deed.not_inserts <;> simp [Operation.deed, Operation.run]
  have hcon : ¬ ((Operation.close session).deed now r).Confirms id := by
    rintro ⟨⟨_, hop⟩, -⟩
    cases hop
  obtain ⟨-, hholdings⟩ := holdings_close r session
  have hafter : ((Operation.close session).deed now r).after.holdings =
      update r.holdings session none := hholdings
  by_cases hid : id = session
  · subst hid
    apply Turn.dropped hins hcon (.inl rfl)
    rw [hafter, update_self]
  · apply Turn.kept hins hcon
    rw [hafter, update_of_ne hid]
    rfl

theorem expire_turn (now : Instant) (r : SessionRegistry) (limit : Duration) (id : UInt32) :
    ((Operation.expire limit).deed now r).Turn id := by
  have hins : ¬ ((Operation.expire limit).deed now r).Inserts id := by
    apply Deed.not_inserts <;> simp [Operation.deed, Operation.run]
  have hcon : ¬ ((Operation.expire limit).deed now r).Confirms id := by
    rintro ⟨⟨_, hop⟩, -⟩
    cases hop
  obtain hkept | hnone := holdings_expire r now limit id
  · exact .kept hins hcon hkept
  · exact .dropped hins hcon (.inr ⟨limit, rfl⟩) hnone

/-- Every operation takes what is held under an identifier through one of the turns. -/
theorem Operation.turn (now : Instant) (r : SessionRegistry) (op : Operation) (id : UInt32) :
    (op.deed now r).Turn id := by
  cases op with
  | start hostkey => exact start_turn now r hostkey id
  | accept hostkey keyBlock macBlock => exact accept_turn now r hostkey keyBlock macBlock id
  | confirm session block => exact confirm_turn now r session block id
  | close session => exact close_turn now r session id
  | expire limit => exact expire_turn now r limit id
  | encrypt sessions payload =>
    apply Turn.of_text (text_or_failed (layerEncrypt now sessions payload) r)
    rw [Operation.deed, Operation.run, snd_outcome]
    exact (layerEncrypt_ensures now sessions payload r rfl rfl).2.2
  | decrypt sessions payload =>
    apply Turn.of_text (text_or_failed (layerDecrypt now sessions payload) r)
    rw [Operation.deed, Operation.run, snd_outcome]
    exact holdings_layerDecrypt now sessions payload

/-! ### Requests -/

/-- What follows an action and leaves the registry alone does not show in the registry. -/
theorem snd_result_bind {α β : Type} {x : Action α} {f : α → Action β}
    (hf : ∀ a r, ((f a).result r).2 = r) (r : SessionRegistry) :
    ((x >>= f).result r).2 = (x.result r).2 := by
  rw [result_bind]
  split
  · next a r' heq => rw [heq, hf]
  · next e r' heq => rw [heq]

theorem snd_result_ofFrame {α : Type} (x : Except FrameError α) (r : SessionRegistry) :
    ((ofFrame x).result r).2 = r := by
  cases x <;> rfl

theorem snd_result_fitting (payload : Bytes) (r : SessionRegistry) :
    ((fitting payload).result r).2 = r := by
  unfold fitting
  split <;> rfl

/-- A request is at most one operation, and sessions go by it only if it closes them. -/
theorem handle_operation (now : Instant) (m : Message) (r : SessionRegistry) :
    (r.handle now m).2 = r ∨ ∃ op : Operation, (r.handle now m).2 = (op.deed now r).after ∧
      ∀ id, (op.deed now r).Drops id → m = .sessionClose id := by
  rw [handle_snd]
  cases m with
  | sessionStart hostkey =>
    refine .inr ⟨.start hostkey, (snd_result_bind ?_ r).trans (snd_outcome _ _ r).symm, ?_⟩
    · exact fun _ r => (snd_result_bind (fun _ _ => rfl) r).trans (snd_result_ofFrame _ r)
    · rintro id (⟨⟨⟩⟩ | ⟨_, ⟨⟩⟩)
  | incomingHandshake1 hostkey handshake =>
    rw [dispatch]
    cases Message.embedded1 handshake with
    | error e => exact .inl rfl
    | ok blocks =>
      obtain ⟨keyBlock, macBlock⟩ := blocks
      refine .inr ⟨.accept hostkey keyBlock macBlock, ?_, ?_⟩
      · refine (snd_result_bind (x := accept now hostkey keyBlock macBlock) ?_ r).trans
          (snd_outcome _ _ r).symm
        exact fun _ r => (snd_result_bind (fun _ _ => rfl) r).trans (snd_result_ofFrame _ r)
      · rintro id (⟨⟨⟩⟩ | ⟨_, ⟨⟩⟩)
  | incomingHandshake2 session handshake =>
    rw [dispatch]
    cases Message.embedded2 handshake with
    | error e => exact .inl rfl
    | ok block =>
      refine .inr ⟨.confirm session block, ?_, ?_⟩
      · show ((do
          confirm now session block
          return some .sessionConfirmed : Action (Option Message)).result r).2 = _
        exact (snd_result_bind (fun _ _ => rfl) r).trans (snd_outcome _ _ r).symm
      · rintro id (⟨⟨⟩⟩ | ⟨_, ⟨⟩⟩)
  | layerEncrypt request sessions payload =>
    refine .inr ⟨.encrypt sessions payload,
      (snd_result_bind ?_ r).trans (snd_outcome _ _ r).symm, ?_⟩
    · exact fun _ r => (snd_result_bind (fun _ _ => rfl) r).trans (snd_result_fitting _ r)
    · rintro id (⟨⟨⟩⟩ | ⟨_, ⟨⟩⟩)
  | layerDecrypt request sessions payload =>
    refine .inr ⟨.decrypt sessions payload,
      (snd_result_bind ?_ r).trans (snd_outcome _ _ r).symm, ?_⟩
    · exact fun _ r => (snd_result_bind (fun _ _ => rfl) r).trans (snd_result_fitting _ r)
    · rintro id (⟨⟨⟩⟩ | ⟨_, ⟨⟩⟩)
  | sessionClose session =>
    refine .inr ⟨.close session, rfl, ?_⟩
    rintro id (⟨⟨⟩⟩ | ⟨_, ⟨⟩⟩)
    rfl
  | _ => exact .inl rfl

/-- A session stays in unless the operation is one that sessions go by. -/
theorem Deed.Turn.stays {d : Deed} (h : d.Turn id) (hdrops : ¬ d.Drops id)
    (hx : d.before.holdings id ≠ none) : d.after.holdings id ≠ none := by
  cases h with
  | kept _ _ hafter => rwa [hafter]
  | started _ _ _ hafter => simp [hafter]
  | accepted _ _ _ hafter => simp [hafter]
  | confirmed _ _ _ _ hafter => simp [hafter]
  | dropped _ _ hop _ => exact (hdrops hop).elim

/-- A session stays in unless the request is to close it. -/
theorem handle_stays (now : Instant) {m : Message} (hm : m ≠ .sessionClose id)
    (hx : r.holdings id ≠ none) : (r.handle now m).2.holdings id ≠ none := by
  obtain hsame | ⟨op, hafter, hdrops⟩ := handle_operation now m r
  · rwa [hsame]
  · rw [hafter]
    exact (op.turn now r id).stays (fun hdropped => hm (hdrops id hdropped)) hx

/-- An established session stays as it is or goes. -/
theorem Deed.Turn.of_established {d : Deed} {x : Session} (h : d.Turn id)
    (hx : d.before.holdings id = some x) (hstate : x.handshake.state = .established) :
    d.after.holdings id = some x ∨ d.after.holdings id = none := by
  cases h with
  | kept _ _ hafter => exact .inl (hafter.trans hx)
  | started _ _ hbefore => cases hx.symm.trans hbefore
  | accepted _ _ hbefore => cases hx.symm.trans hbefore
  | confirmed _ _ hbefore hwaits =>
    obtain rfl := Option.some.inj (hx.symm.trans hbefore)
    rw [hwaits] at hstate
    cases hstate
  | dropped _ _ _ hafter => exact .inr hafter

/-- A request leaves an established session as it is, or the session goes. -/
theorem handle_established {x : Session} (now : Instant) (m : Message)
    (hx : r.holdings id = some x) (hstate : x.handshake.state = .established) :
    (r.handle now m).2.holdings id = some x ∨ (r.handle now m).2.holdings id = none := by
  obtain hsame | ⟨op, hafter, -⟩ := handle_operation now m r
  · rw [hsame]
    exact .inl hx
  · rw [hafter]
    exact (op.turn now r id).of_established hx hstate

end Steps

/-! ### Runs -/

/-- A registry goes on to another over its deeds, newest first. -/
inductive Ran (r₀ : SessionRegistry) : List Deed → SessionRegistry → Prop
  | start : Ran r₀ [] r₀
  | step {deeds : List Deed} {r : SessionRegistry} (hran : Ran r₀ deeds r) (now : Instant)
      (op : Operation) : Ran r₀ (op.deed now r :: deeds) (op.deed now r).after

/-- What the deeds since a session came in have made of it. -/
structure Life (since : List Deed) (birth : Deed) (id : UInt32) (x : Session) : Prop where
  /-- Nothing was under the identifier when the session came in. -/
  free : birth.before.holdings id = none
  /-- A session that was started is an initiator's, one that was accepted a responder's. -/
  origin : birth.Starts id ∧ x.handshake.role = .initiator ∨
    birth.Accepts id ∧ x.handshake.role = .responder
  /-- The session has been there since, with its peer, role, key and own tag key. -/
  stays : ∀ d ∈ since ++ [birth], ∃ y, d.after.holdings id = some y ∧ y.Alike x
  /-- No other session was put in its place. -/
  alone : ∀ d ∈ since, ¬ d.Inserts id
  /-- The peer's tag key was written once if the session is established, and not at all if it is
  not. -/
  written : (since ++ [birth]).countP (·.rekeys id) = if x.isEstablished then 1 else 0
  /-- It was written where the session became established. -/
  together : ∀ d ∈ since ++ [birth], d.rekeys id = d.establishes id
  /-- Each confirmation wrote it. -/
  confirmed : ∀ d ∈ since, d.Confirms id → d.rekeys id = true

/-- What is true of a session that a registry holds after its deeds. -/
structure Standing (deeds : List Deed) (id : UInt32) (x : Session) : Prop where
  ne_zero : id ≠ 0
  staged : x.Staged
  valid : Aes.validLength x.sharedKey.length
  life : ∃ since birth earlier, deeds = since ++ birth :: earlier ∧ Life since birth id x

section Lives
variable {r r₀ : SessionRegistry} {deeds later earlier since : List Deed} {birth d : Deed}
  {id : UInt32} {x : Session} {mac : Bytes}

theorem isEstablished_eq (x : Session) :
    x.isEstablished = decide (x.handshake.state = .established) := rfl

theorem Life.of_started (hstarts : d.Starts id) (hbefore : d.before.holdings id = none)
    (hafter : d.after.holdings id = some x)
    (hstate : x.handshake = ⟨.initiator, .awaitingConfirm⟩) (hmac : x.remoteMac? = none) :
    Life [] d id x := by
  have hrekeys : d.rekeys id = false := by simp [Deed.rekeys, hbefore, hafter, hmac]
  have hwaits : x.isEstablished = false := by simp [isEstablished_eq, hstate]
  constructor
  · exact hbefore
  · exact .inl ⟨hstarts, by rw [hstate]⟩
  · simpa using ⟨x, hafter, .refl x⟩
  · simp
  · simp [hrekeys, hwaits]
  · simp [hrekeys, Deed.establishes, hafter, hwaits]
  · simp

theorem Life.of_accepted (haccepts : d.Accepts id) (hbefore : d.before.holdings id = none)
    (hafter : d.after.holdings id = some x) (hstate : x.handshake = ⟨.responder, .established⟩)
    (hmac : x.remoteMac? = some mac) : Life [] d id x := by
  have hrekeys : d.rekeys id = true := by simp [Deed.rekeys, hbefore, hafter, hmac]
  have hestablished : x.isEstablished = true := by simp [isEstablished_eq, hstate]
  constructor
  · exact hbefore
  · exact .inr ⟨haccepts, by rw [hstate]⟩
  · simpa using ⟨x, hafter, .refl x⟩
  · simp
  · simp [hrekeys, hestablished]
  · simp [hrekeys, Deed.establishes, hbefore, hafter, hestablished]
  · simp

/-- A deed that keeps a session is one more deed in its life. -/
theorem Life.kept (h : Life since birth id x) (hbefore : d.before.holdings id = some x)
    (hins : ¬ d.Inserts id) (hcon : ¬ d.Confirms id)
    (hafter : d.after.holdings id = d.before.holdings id) : Life (d :: since) birth id x := by
  have hrekeys : d.rekeys id = false := by simp [Deed.rekeys, hafter]
  have hestablishes : d.establishes id = false := by simp [Deed.establishes, hafter]
  rw [hbefore] at hafter
  constructor
  · exact h.free
  · exact h.origin
  · rw [List.cons_append, List.forall_mem_cons]
    exact ⟨⟨x, hafter, .refl x⟩, h.stays⟩
  · rw [List.forall_mem_cons]
    exact ⟨hins, h.alone⟩
  · rw [List.cons_append, List.countP_cons_of_neg (by simp [hrekeys])]
    exact h.written
  · rw [List.cons_append, List.forall_mem_cons]
    exact ⟨hrekeys.trans hestablishes.symm, h.together⟩
  · rw [List.forall_mem_cons]
    exact ⟨fun hd => (hcon hd).elim, h.confirmed⟩

/-- A deed that establishes a session, and writes the peer's tag key there, is the one in its life
that does so. -/
theorem Life.established {x' : Session} (h : Life since birth id x)
    (hbefore : d.before.holdings id = some x) (hafter : d.after.holdings id = some x')
    (hins : ¬ d.Inserts id) (halike : x.Alike x') (hwaits : x.isEstablished = false)
    (hunknown : x.remoteMac? = none) (hestablished : x'.isEstablished = true)
    (hmac : x'.remoteMac? = some mac) : Life (d :: since) birth id x' := by
  have hrekeys : d.rekeys id = true := by
    simp [Deed.rekeys, hbefore, hafter, hunknown, hmac]
  have hestablishes : d.establishes id = true := by
    simp [Deed.establishes, hbefore, hafter, hwaits, hestablished]
  constructor
  · exact h.free
  · rw [← halike.role]
    exact h.origin
  · rw [List.cons_append, List.forall_mem_cons]
    refine ⟨⟨x', hafter, .refl x'⟩, ?_⟩
    intro e he
    obtain ⟨y, hy, hyx⟩ := h.stays e he
    exact ⟨y, hy, hyx.trans halike⟩
  · rw [List.forall_mem_cons]
    exact ⟨hins, h.alone⟩
  · rw [List.cons_append, List.countP_cons_of_pos (by simpa using hrekeys), h.written, hwaits,
      hestablished]
    rfl
  · rw [List.cons_append, List.forall_mem_cons]
    exact ⟨hrekeys.trans hestablishes.symm, h.together⟩
  · rw [List.forall_mem_cons]
    exact ⟨fun _ => hrekeys, h.confirmed⟩

/-- The life of a session that is there after one more deed. -/
theorem Standing.step (hd : d.Turn id)
    (hbefore : ∀ x, d.before.holdings id = some x → Standing deeds id x)
    (hx : d.after.holdings id = some x) : Standing (d :: deeds) id x := by
  cases hd with
  | kept hins hcon hafter =>
    obtain ⟨hid, hstaged, hvalid, since, birth, earlier, rfl, hlife⟩ :=
      hbefore x (hafter.symm.trans hx)
    exact ⟨hid, hstaged, hvalid, d :: since, birth, earlier, rfl,
      hlife.kept (hafter.symm.trans hx) hins hcon hafter⟩
  | @started y hstarts hid hfree hafter hstate hmac hvalid =>
    obtain rfl := Option.some.inj (hafter.symm.trans hx)
    exact ⟨hid, .awaiting hstate hmac, hvalid, [], d, deeds, rfl,
      .of_started hstarts hfree hafter hstate hmac⟩
  | @accepted y mac haccepts hid hfree hafter hstate hmac hvalid =>
    obtain rfl := Option.some.inj (hafter.symm.trans hx)
    refine ⟨hid, .established ?_ ?_, hvalid, [], d, deeds, rfl,
      .of_accepted haccepts hfree hafter hstate hmac⟩
    · rw [hstate]
    · rw [hmac]
      rfl
  | @confirmed y mac hins hcon hthere hstate hafter =>
    obtain ⟨hid, hstaged, hvalid, since, birth, earlier, rfl, hlife⟩ := hbefore y hthere
    obtain rfl := Option.some.inj (hafter.symm.trans hx)
    refine ⟨hid, .established rfl rfl, hvalid, d :: since, birth, earlier, rfl, ?_⟩
    apply hlife.established hthere hafter hins
    · exact ⟨rfl, by rw [hstate], rfl, rfl⟩
    · rw [isEstablished_eq, hstate]
      rfl
    · exact hstaged.remoteMac?_eq hstate
    · rfl
    · rfl
  | dropped _ _ _ hafter =>
    rw [hafter] at hx
    cases hx

/-- What a registry without sessions comes to hold has a life among its deeds. -/
theorem Ran.standing (hran : Ran r₀ deeds r) (hempty : ∀ id, r₀.holdings id = none)
    (hx : r.holdings id = some x) : Standing deeds id x := by
  induction hran generalizing x with
  | start =>
    rw [hempty] at hx
    cases hx
  | @step deeds r hran now op ih => exact Standing.step (op.turn now r id) (fun _ => ih) hx

/-- A deed of a run, and the run up to it. -/
theorem Ran.at_deed (hran : Ran r₀ (later ++ d :: earlier) r) :
    ∃ (now : Instant) (op : Operation), Ran r₀ earlier d.before ∧ d = op.deed now d.before := by
  induction later generalizing r with
  | nil =>
    cases hran with
    | step hran now op => exact ⟨now, op, hran, rfl⟩
  | cons e later ih =>
    cases hran with
    | step hran now op => exact ih hran

/-- A confirmation that succeeds is the first one of a session that was started, which has been
there since. -/
theorem Ran.confirmed (hran : Ran r₀ (later ++ d :: earlier) r)
    (hempty : ∀ id, r₀.holdings id = none) (hd : d.Confirms id) :
    ∃ since birth before, earlier = since ++ birth :: before ∧ birth.Starts id ∧
      ∀ e ∈ since, ¬ e.Confirms id ∧ ¬ e.Inserts id ∧ ∃ y, e.after.holdings id = some y := by
  obtain ⟨now, op, hbefore, hop⟩ := hran.at_deed
  have hturn := op.turn now d.before id
  rw [← hop] at hturn
  cases hturn with
  | kept _ hcon => exact (hcon hd).elim
  | dropped _ hcon => exact (hcon hd).elim
  | started hstarts =>
    obtain ⟨keyBlock, macBlock, hout⟩ := hstarts
    cases hout.symm.trans hd.2
  | accepted haccepts =>
    obtain ⟨block, hout⟩ := haccepts
    cases hout.symm.trans hd.2
  | @confirmed x mac _ _ hthere hstate =>
    obtain ⟨-, -, -, since, birth, before, rfl, hlife⟩ := hbefore.standing hempty hthere
    refine ⟨since, birth, before, rfl, ?_, ?_⟩
    · obtain ⟨hstarts, -⟩ | ⟨-, hrole⟩ := hlife.origin
      · exact hstarts
      · rw [hstate] at hrole
        cases hrole
    · intro e he
      have hmem : e ∈ since ++ [birth] := List.mem_append_left _ he
      obtain ⟨y, hy, -⟩ := hlife.stays e hmem
      refine ⟨?_, hlife.alone e he, y, hy⟩
      intro hcon
      -- A second confirmation would have established the session already.
      have hnone := hlife.written
      rw [isEstablished_eq, hstate, if_neg (by decide), List.countP_eq_zero] at hnone
      exact hnone e hmem (hlife.confirmed e he hcon)

/-- A deed leaves a session as it is but for its confirmation, or the session goes by a close or an
expiry. -/
theorem Deed.Turn.alike (hd : d.Turn id) (hx : d.before.holdings id = some x) :
    (∃ y, d.after.holdings id = some y ∧ x.Alike y) ∨ d.Drops id ∧ d.after.holdings id = none := by
  cases hd with
  | kept _ _ hafter => exact .inl ⟨x, hafter.trans hx, .refl x⟩
  | started _ _ hfree =>
    rw [hfree] at hx
    cases hx
  | accepted _ _ hfree =>
    rw [hfree] at hx
    cases hx
  | confirmed _ _ hthere hstate hafter =>
    obtain rfl := Option.some.inj (hthere.symm.trans hx)
    exact .inl ⟨_, hafter, rfl, by rw [hstate], rfl, rfl⟩
  | dropped _ _ hop hafter => exact .inr ⟨hop, hafter⟩

/-- A session comes in where nothing is held. -/
theorem Deed.Turn.free (hd : d.Turn id) (hins : d.Inserts id) : d.before.holdings id = none := by
  cases hd with
  | kept hnot => exact (hnot hins).elim
  | started _ _ hfree => exact hfree
  | accepted _ _ hfree => exact hfree
  | confirmed hnot => exact (hnot hins).elim
  | dropped hnot => exact (hnot hins).elim

end Lives

/-! ### Layers -/

section Encryption
variable {R : Setting} {v : Holdings} {r r₀ : SessionRegistry} {deeds : List Deed}

theorem outward?_isSome {id : UInt32} :
    (outward? v id).isSome = true ↔ ∃ x, v id = some x ∧ x.handshake.state = .established := by
  unfold outward? layerKeys?
  cases v id with
  | none => simp
  | some x =>
    by_cases hstate : x.handshake.state = .established
    · simp [isEstablished_eq, hstate]
    · simp [isEstablished_eq, hstate]

/-- A list without gaps is a list of values. -/
theorem exists_map_some {α β : Type} {f : α → Option β} {as : List α} :
    (∃ bs : List β, as.map f = bs.map some) ↔ ∀ a ∈ as, (f a).isSome = true := by
  induction as with
  | nil => exact ⟨fun _ => by simp, fun _ => ⟨[], rfl⟩⟩
  | cons a as ih =>
    rw [List.forall_mem_cons, ← ih]
    constructor
    · rintro ⟨bs, h⟩
      obtain ⟨b, rest, rfl, hb, hrest⟩ := List.map_eq_cons_iff.1 h.symm
      exact ⟨by rw [← hb]; rfl, rest, hrest.symm⟩
    · rintro ⟨hsome, rest, hrest⟩
      obtain ⟨b, hb⟩ := Option.isSome_iff_exists.1 hsome
      exact ⟨b :: rest, by rw [List.map_cons, List.map_cons, hb, hrest]⟩

/-- Encrypting gives a blob only for sessions that are established. -/
theorem layerEncrypt_listed (now : Instant) (ids : List UInt32) (payload : Bytes) :
    Ensures R v (layerEncrypt now ids payload) fun res _ => ∀ blob, res = .ok blob →
      ∃ keys : List (Bytes × Bytes), ids.map (outward? v) = keys.map some := by
  apply (layers_ensures now (fun _ => rfl) ids).bind
  · rintro ls _ ⟨⟨_, ⟨⟩, hls⟩ | ⟨⟨_, ⟨⟩⟩, _⟩, rfl⟩
    apply (wrapAll_ensures ls payload).mono
    intro _ _ _ blob _
    exact ⟨_, hls⟩
  · rintro e _ ⟨-, rfl⟩ blob ⟨⟩

/-- Encrypting succeeds exactly if every session listed is established. -/
theorem Ran.layerEncrypt_ok (hran : Ran r₀ deeds r) (hempty : ∀ id, r₀.holdings id = none)
    (now : Instant) (ids : List UInt32) (payload : Bytes) :
    (∃ blob, ((layerEncrypt now ids payload).result r).1 = .ok blob) ↔
      ∀ id ∈ ids, ∃ x, r.holdings id = some x ∧ x.handshake.state = .established := by
  simp only [← outward?_isSome, ← exists_map_some]
  constructor
  · rintro ⟨blob, hblob⟩
    exact (layerEncrypt_listed now ids payload r rfl rfl).2 blob hblob
  · rintro ⟨keys, hkeys⟩
    -- The keys are those of sessions held, and so fit the cipher.
    have hvalid : ∀ k ∈ keys, Aes.validLength k.1.length := by
      intro k hk
      have hmem : some k ∈ ids.map (outward? r.holdings) := by
        rw [hkeys]
        exact List.mem_map_of_mem hk
      obtain ⟨id, -, hid⟩ := List.mem_map.1 hmem
      obtain ⟨x, hx, hlayer⟩ := Option.bind_eq_some_iff.1 hid
      split at hlayer
      · obtain rfl := Option.some.inj hlayer
        exact (hran.standing hempty hx).valid
      · cases hlayer
    obtain ⟨blob, hblob, -⟩ :=
      (layerEncrypt_ensures now ids payload r rfl rfl).2.1 keys hkeys hvalid
    exact ⟨blob, hblob⟩

end Encryption

/-! ### The whole life -/

/-- A registry without sessions runs any operations, each to its end, at any moments. Each session
that it comes to hold has an identifier other than zero, waits without the peer's tag key or is
established with it, and has a key that fits the cipher. Since it came in, nothing but the peer's
tag key has changed in it, which was written once, where it became established; no session comes in
over another, and none goes but by a close or an expiry. A confirmation succeeds once for a session,
which was started here, and encrypting succeeds exactly for established sessions. -/
theorem lifecycle {r₀ r : SessionRegistry} {deeds : List Deed} (hempty : r₀.sessions = .empty)
    (hran : Ran r₀ deeds r) :
    (∀ id x, r.holdings id = some x → Standing deeds id x) ∧
    (∀ d ∈ deeds, ∀ id, (d.Inserts id → d.before.holdings id = none) ∧
      ∀ x, d.before.holdings id = some x →
        (∃ y, d.after.holdings id = some y ∧ x.Alike y) ∨
          d.Drops id ∧ d.after.holdings id = none) ∧
    (∀ id later d earlier, deeds = later ++ d :: earlier → d.Confirms id →
      ∃ since birth before, earlier = since ++ birth :: before ∧ birth.Starts id ∧
        ∀ e ∈ since, ¬ e.Confirms id ∧ ¬ e.Inserts id ∧ ∃ y, e.after.holdings id = some y) ∧
    ∀ now ids payload, (∃ blob, ((layerEncrypt now ids payload).result r).1 = .ok blob) ↔
      ∀ id ∈ ids, ∃ x, r.holdings id = some x ∧ x.handshake.state = .established := by
  have hnone : ∀ id, r₀.holdings id = none := by
    intro id
    rw [holdings, hempty]
    rfl
  refine ⟨?_, ?_, ?_, hran.layerEncrypt_ok hnone⟩
  · intro id x hx
    exact hran.standing hnone hx
  · intro d hd id
    obtain ⟨later, earlier, rfl⟩ := List.append_of_mem hd
    obtain ⟨now, op, -, hop⟩ := hran.at_deed
    have hturn := op.turn now d.before id
    rw [← hop] at hturn
    exact ⟨hturn.free, fun x => hturn.alike⟩
  · rintro id later d earlier rfl hd
    exact hran.confirmed hnone hd

/-- A registry starts a session with itself and confirms it with the block that holds its key. -/
theorem exists_established {r₀ : SessionRegistry} (hfit : r₀.keypair.Fit) (hids : Spare r₀) :
    ∃ deeds r id x, Ran r₀ deeds r ∧ r.holdings id = some x ∧ x.isEstablished = true := by
  obtain ⟨a, hres⟩ := start_ok 0 hfit.taken hids
  obtain ⟨hset, hstart⟩ := start_ensures 0 r₀.keypair.hostkey r₀ rfl rfl
  have hnone : Ran r₀ [] r₀ := .start
  have hran := hnone.step 0 (.start r₀.keypair.hostkey)
  have hafter := start_after 0 r₀ r₀.keypair.hostkey
  generalize (Operation.start r₀.keypair.hostkey).deed 0 r₀ = d at hran hafter
  obtain ⟨id, keyBlock, macBlock, x, -, -, hholdings, hstarted⟩ | ⟨⟨e, herror⟩, -⟩ := hstart
  · rw [← hafter] at hset hholdings
    have hx : d.after.holdings id = some x := by rw [hholdings, update_self]
    obtain ⟨key, hkey, hkeyBlock, -⟩ := hstarted.sealed
    have hopen : d.after.setting.keypair.decrypt keyBlock = .ok x.sharedKey := by
      rw [hset]
      exact hfit.inverts key _ _ hkey hkeyBlock
    obtain ⟨-, hconfirm⟩ :=
      confirm_ensures 0 hx hstarted.handshake_eq keyBlock d.after rfl rfl
    rw [← confirm_after] at hconfirm
    obtain ⟨mac, -, -, hholdings⟩ | ⟨⟨e, herror⟩, -⟩ := hconfirm
    · have hconfirmed := congrFun hholdings id
      rw [update_self] at hconfirmed
      exact ⟨_, _, id, _, hran.step 0 (.confirm id keyBlock), hconfirmed, rfl⟩
    · exact (ok_ne_error hopen herror).elim
  · exact (ok_ne_error hres herror).elim

/-- Such a run. -/
theorem lifecycle_twoRegistries :
    ∃ deeds r id x, Ran (twoRegistries false) deeds r ∧ r.holdings id = some x ∧
      x.isEstablished = true ∧ Standing deeds id x := by
  obtain ⟨deeds, r, id, x, hran, hx, hestablished⟩ := @exists_established
    (twoRegistries false) (twoRegistries_fit false) (spare_twoRegistries false)
  exact ⟨deeds, r, id, x, hran, hx, hestablished, (lifecycle rfl hran).1 id x hx⟩

end SessionRegistry

end OnionTunnel
