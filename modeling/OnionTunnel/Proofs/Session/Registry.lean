import OnionTunnel.Proofs.IdPool
import OnionTunnel.Proofs.Session.Outcome

/-!
# Starting, accepting and confirming sessions

A started session waits under a new identifier, an accepted one is established under a new
identifier, and a confirmed one becomes established. An action that fails leaves the holdings as
they were, and fails for a reason that the setting, the holdings and the blocks give.
-/

namespace OnionTunnel

/-! ### Sealed blocks -/

/-- A block seals a message for a key. -/
def Rsa.PublicKey.Seals (key : Rsa.PublicKey) (message block : Bytes) : Prop :=
  ∃ filler : Bytes, filler.length = key.fillerLength message ∧ (∀ x ∈ filler, x ≠ 0) ∧
    key.encrypt filler message = .ok block

theorem Rsa.PublicKey.Seals.length_eq {key : Rsa.PublicKey} {message block : Bytes}
    (h : key.Seals message block) : block.length = key.size := by
  obtain ⟨filler, -, -, hblock⟩ := h
  rw [encrypt] at hblock
  split at hblock
  · cases hblock
  · rw [← Except.ok.inj hblock, Bytes.length_ofNat]

/-- The modulus of a key that sealed a message leaves room for the padding. -/
theorem Rsa.PublicKey.Seals.le_size {key : Rsa.PublicKey} {message block : Bytes}
    (h : key.Seals message block) : message.length + minPadding ≤ key.size := by
  obtain ⟨filler, -, -, hblock⟩ := h
  rw [encrypt] at hblock
  split at hblock
  · cases hblock
  · next hsize => exact Nat.le_of_not_lt hsize

theorem Rsa.PublicKey.Seals.ne_nil {key : Rsa.PublicKey} {message block : Bytes}
    (h : key.Seals message block) : block ≠ [] := by
  have hlen := h.length_eq
  have hsize := h.le_size
  rintro rfl
  simp only [List.length_nil, minPadding] at hlen hsize
  omega

/-- Every block that is sealed for the hostkey of a keypair, as others read it, opens to the
message in it. -/
def Keypair.Inverts (k : Keypair) : Prop :=
  ∀ key message block, Hostkey.parse k.hostkey = .ok key → key.Seals message block →
    k.decrypt block = .ok message

namespace SessionRegistry

open Function

theorem ok_ne_error {ε α : Type} {x : Except ε α} {a : α} {e : ε} (hok : x = .ok a)
    (herror : x = .error e) : False := by
  rw [hok] at herror
  cases herror

section Steps
variable {R : Setting} {v : Holdings}

theorem allocate_result (r : SessionRegistry) :
    allocate.result r =
      ((r.ids.allocate r.sessions.contains).1.mapError SessionError.exhausted,
        { r with ids := (r.ids.allocate r.sessions.contains).2 }) := by
  simp only [allocate, result_bind, result_get, result_modify]
  cases (r.ids.allocate r.sessions.contains).1 <;> rfl

theorem openBlock_result (block : Bytes) (r : SessionRegistry) :
    (openBlock block).result r =
      ((r.keypair.decrypt block).mapError SessionError.ofBlockError, r) := by
  simp only [openBlock, result_bind, result_get]
  cases r.keypair.decrypt block <;> rfl

theorem draw_ensures (n : Nat) :
    Ensures R v (draw n) fun res v' => ∃ b, res = .ok b ∧ b.length = n ∧ v' = v := by
  apply Ensures.modifyGet
  rintro r rfl rfl
  exact ⟨rfl, _, rfl, Tape.length_draw _ n, rfl⟩

theorem drawNonZero_ensures (n : Nat) :
    Ensures R v (drawNonZero n) fun res v' =>
      ∃ b, res = .ok b ∧ (b.length = n ∧ ∀ x ∈ b, x ≠ 0) ∧ v' = v := by
  apply Ensures.modifyGet
  rintro r rfl rfl
  refine ⟨rfl, _, rfl, ⟨?_, ?_⟩, rfl⟩
  · simp [Tape.drawNonZero]
  · intro x hx
    simp only [Tape.drawNonZero, List.mem_map] at hx
    obtain ⟨y, -, rfl⟩ := hx
    split
    · decide
    · assumption

theorem allocate_ensures :
    Ensures R v allocate fun res v' =>
      ((∃ id, res = .ok id ∧ v id = none) ∨ ∃ e, res = .error e) ∧ v' = v := by
  rintro r rfl rfl
  rw [Gives, allocate_result]
  obtain ⟨ids, hdraw, hattempts, ⟨id, hid, -, hfree⟩ | ⟨⟨e, he⟩, -⟩⟩ :=
    r.ids.allocate_cases r.sessions.contains
  · rw [contains_eq, Option.isSome_eq_false_iff, Option.isNone_iff_eq_none] at hfree
    rw [hid]
    refine ⟨?_, .inl ⟨id, rfl, hfree⟩, rfl⟩
    simp only [setting, hdraw, hattempts]
  · rw [he]
    refine ⟨?_, .inr ⟨_, rfl⟩, rfl⟩
    simp only [setting, hdraw, hattempts]

theorem store_ensures (id : UInt32) (s : Session) :
    Ensures R v (store id s) fun res v' => ∃ a, res = .ok a ∧ v' = update v id (some s.untimed) := by
  apply Ensures.modify
  rintro r rfl rfl
  exact ⟨rfl, _, rfl, holdings_insert r id s⟩

theorem abandon_ensures (id : UInt32) :
    Ensures R v (abandon id) fun res v' => ∃ a, res = .ok a ∧ v' = update v id none := by
  apply Ensures.modify
  rintro r rfl rfl
  exact ⟨rfl, _, rfl, holdings_erase r id⟩

theorem bindSession_ensures (id : UInt32) (peer : Identity) :
    Ensures R v (bindSession id peer) fun res v' => ∃ a, res = .ok a ∧ v' = v := by
  apply Ensures.modify
  rintro r rfl rfl
  exact ⟨rfl, _, rfl, rfl⟩

theorem sealFor_ensures (key : Rsa.PublicKey) (message : Bytes) :
    Ensures R v (sealFor key message) fun res v' =>
      ((∃ block, res = .ok block ∧ key.Seals message block) ∨
        (∃ e, res = .error e) ∧ key.size < message.length + Rsa.minPadding) ∧ v' = v := by
  refine (drawNonZero_ensures _).andThen ?_
  rintro filler _ ⟨⟨hlen, hne⟩, rfl⟩
  cases hblock : key.encrypt filler message with
  | ok block => exact Ensures.pure ⟨.inl ⟨block, rfl, filler, hlen, hne, hblock⟩, rfl⟩
  | error e =>
    refine Ensures.throw ⟨.inr ⟨⟨_, rfl⟩, ?_⟩, rfl⟩
    rw [Rsa.PublicKey.encrypt] at hblock
    split at hblock
    · assumption
    · cases hblock

theorem openBlock_ensures (block : Bytes) :
    Ensures R v (openBlock block) fun res v' =>
      ((∃ message, res = .ok message ∧ R.keypair.decrypt block = .ok message) ∨
        (∃ e, res = .error e) ∧ ∃ e, R.keypair.decrypt block = .error e) ∧ v' = v := by
  rintro r rfl rfl
  rw [Gives, openBlock_result]
  show r.setting = r.setting ∧ _
  cases hblock : r.keypair.decrypt block with
  | ok message => exact ⟨rfl, .inl ⟨message, rfl, hblock⟩, rfl⟩
  | error e => exact ⟨rfl, .inr ⟨⟨_, rfl⟩, e, hblock⟩, rfl⟩

theorem presented_ensures (hostkey : Bytes) :
    Ensures R v (presented hostkey) fun res v' =>
      ((∃ key, res = .ok key ∧ Hostkey.parse hostkey = .ok key) ∨
        (∃ e, res = .error e) ∧ ∃ e, Hostkey.parse hostkey = .error e) ∧ v' = v := by
  unfold presented
  cases hkey : Hostkey.parse hostkey with
  | ok key => exact Ensures.pure ⟨.inl ⟨key, rfl, rfl⟩, rfl⟩
  | error e => exact Ensures.throw ⟨.inr ⟨⟨_, rfl⟩, e, rfl⟩, rfl⟩

theorem lookup_cases (id : UInt32) :
    Ensures R v (lookup id) fun res v' =>
      ((∃ s, res = .ok s ∧ v id = some s.untimed) ∨ (∃ e, res = .error e) ∧ v id = none) ∧
        v' = v := by
  rintro r rfl rfl
  cases hs : r.sessions.get? id with
  | some s =>
    have hresult : (lookup id).result r = (.ok s, r) := by
      simp only [lookup, result_bind, result_get, hs]
      rfl
    rw [Gives, hresult]
    exact ⟨rfl, .inl ⟨s, rfl, by rw [holdings, hs]; rfl⟩, rfl⟩
  | none =>
    have hresult : (lookup id).result r = (.error (.notFound id), r) := by
      simp only [lookup, result_bind, result_get, hs]
      rfl
    rw [Gives, hresult]
    exact ⟨rfl, .inr ⟨⟨_, rfl⟩, by rw [holdings, hs]; rfl⟩, rfl⟩

theorem advance_cases (id : UInt32) (s : Session) (event : Session.Event) :
    Ensures R v (advance id s event) fun res v' =>
      ((∃ state, s.handshake.target event = .ok state ∧
          res = .ok { s with handshake := ⟨s.handshake.role, state⟩ }) ∨
        (∃ e, res = .error e) ∧ ∃ fault, s.handshake.target event = .error fault) ∧ v' = v := by
  unfold advance Session.step Session.Handshake.step
  cases s.handshake.target event with
  | ok state => exact Ensures.pure ⟨.inl ⟨state, rfl, rfl⟩, rfl⟩
  | error fault => exact Ensures.throw ⟨.inr ⟨⟨_, rfl⟩, fault, rfl⟩, rfl⟩

theorem advance_ensures {id : UInt32} {s : Session} {event : Session.Event}
    {state : Session.State} (h : s.handshake.target event = .ok state) :
    Ensures R v (advance id s event) fun res v' => ∃ a, res = .ok a ∧
      a = { s with handshake := ⟨s.handshake.role, state⟩ } ∧ v' = v := by
  apply (advance_cases id s event).mono
  rintro _ _ ⟨⟨state', hstate, rfl⟩ | ⟨-, _, hfault⟩, rfl⟩
  · rw [h] at hstate
    obtain rfl := Except.ok.inj hstate
    exact ⟨_, rfl, rfl, rfl⟩
  · exact (ok_ne_error h hfault).elim

/-- The first handshake is sent by an initiator that has sent nothing. -/
theorem target_sendHandshake1 {h : Session.Handshake} {state : Session.State} :
    h.target .sendHandshake1 = .ok state ↔ h = .fresh .initiator ∧ state = .awaitingConfirm := by
  obtain ⟨role, state₀⟩ := h
  cases role <;> cases state₀ <;>
    simp [Session.Handshake.target, Session.Handshake.fresh, eq_comm]

/-- The second handshake fits an initiator that waits for it. -/
theorem target_receiveHandshake2 {h : Session.Handshake} {state : Session.State} :
    h.target .receiveHandshake2 = .ok state ↔
      h = ⟨.initiator, .awaitingConfirm⟩ ∧ state = .established := by
  obtain ⟨role, state₀⟩ := h
  cases role <;> cases state₀ <;> simp [Session.Handshake.target, eq_comm]

/-! ### Starting -/

theorem reserve_ensures (now : Instant) (peer : Identity) (sharedKey localMac : Bytes) :
    Ensures R v (reserve now peer sharedKey localMac) fun res v' =>
      (∃ id, res = .ok id ∧ v id = none ∧
        v' = update v id (some (Session.fresh 0 .initiator peer sharedKey localMac))) ∨
      (∃ e, res = .error e) ∧ v' = v := by
  refine allocate_ensures.bind ?_ ?_
  · rintro id _ ⟨⟨_, ⟨⟩, hfree⟩ | ⟨_, ⟨⟩⟩, rfl⟩
    refine (store_ensures id _).andThen ?_
    rintro _ _ rfl
    exact Ensures.pure (.inl ⟨id, rfl, hfree, rfl⟩)
  · rintro e _ ⟨⟨_, ⟨⟩, _⟩ | -, rfl⟩
    exact .inr ⟨⟨e, rfl⟩, rfl⟩

/-- A session moves on once its first handshake is sealed if nothing has been sent in it. -/
theorem finishStart_cases (now : Instant) (id : UInt32) :
    Ensures R v (finishStart now id) fun res v' =>
      (∃ a x, res = .ok a ∧ v id = some x ∧ x.handshake = .fresh .initiator ∧
        v' = update v id (some { x with handshake := ⟨.initiator, .awaitingConfirm⟩ })) ∨
      (∃ e, res = .error e) ∧ (∀ x, v id = some x → x.handshake ≠ .fresh .initiator) ∧
        v' = v := by
  apply (lookup_cases id).bind
  · rintro s _ ⟨⟨_, ⟨⟩, hs⟩ | ⟨⟨_, ⟨⟩⟩, _⟩, rfl⟩
    apply (advance_cases id s .sendHandshake1).bind
    · rintro _ _ ⟨⟨state, hstate, ⟨⟩⟩ | ⟨⟨_, ⟨⟩⟩, _⟩, rfl⟩
      obtain ⟨hfresh, rfl⟩ := target_sendHandshake1.1 hstate
      apply (store_ensures id _).mono
      rintro _ _ ⟨a, rfl, rfl⟩
      refine .inl ⟨a, s.untimed, rfl, hs, hfresh, ?_⟩
      rw [show s.handshake.role = .initiator from congrArg Session.Handshake.role hfresh]
      rfl
    · rintro e _ ⟨⟨_, _, ⟨⟩⟩ | ⟨-, fault, hfault⟩, rfl⟩
      refine .inr ⟨⟨e, rfl⟩, ?_, rfl⟩
      intro x hx hfresh
      rw [hs] at hx
      obtain rfl := Option.some.inj hx
      exact ok_ne_error (target_sendHandshake1.2 ⟨hfresh, rfl⟩) hfault
  · rintro e _ ⟨⟨_, ⟨⟩, _⟩ | ⟨-, hnone⟩, rfl⟩
    refine .inr ⟨⟨e, rfl⟩, ?_, rfl⟩
    intro x hx
    rw [hnone] at hx
    cases hx

/-- Both keys of a started session are sealed, or its identifier is given up. -/
theorem sealBlocks_ensures (key : Rsa.PublicKey) (id : UInt32) (sharedKey localMac : Bytes) :
    Ensures R v
      (tryCatch (do return (← sealFor key sharedKey, ← sealFor key localMac)) fun e => do
        abandon id
        throw e)
      fun res v' =>
        (∃ keyBlock macBlock, res = .ok (keyBlock, macBlock) ∧ key.Seals sharedKey keyBlock ∧
          key.Seals localMac macBlock ∧ v' = v) ∨
        (∃ e, res = .error e) ∧ (key.size < sharedKey.length + Rsa.minPadding ∨
          key.size < localMac.length + Rsa.minPadding) ∧ v' = update v id none := by
  apply Ensures.tryCatch (P := fun res v' =>
    ((∃ keyBlock macBlock, res = .ok (keyBlock, macBlock) ∧ key.Seals sharedKey keyBlock ∧
      key.Seals localMac macBlock) ∨
      (∃ e, res = .error e) ∧ (key.size < sharedKey.length + Rsa.minPadding ∨
        key.size < localMac.length + Rsa.minPadding)) ∧ v' = v)
  · apply (sealFor_ensures key sharedKey).bind
    · rintro keyBlock _ ⟨⟨_, ⟨⟩, hkeyBlock⟩ | ⟨⟨_, ⟨⟩⟩, _⟩, rfl⟩
      apply (sealFor_ensures key localMac).bind
      · rintro macBlock _ ⟨⟨_, ⟨⟩, hmacBlock⟩ | ⟨⟨_, ⟨⟩⟩, _⟩, rfl⟩
        exact Ensures.pure ⟨.inl ⟨keyBlock, macBlock, rfl, hkeyBlock, hmacBlock⟩, rfl⟩
      · rintro e _ ⟨⟨_, ⟨⟩, _⟩ | ⟨-, hsmall⟩, rfl⟩
        exact ⟨.inr ⟨⟨e, rfl⟩, .inr hsmall⟩, rfl⟩
    · rintro e _ ⟨⟨_, ⟨⟩, _⟩ | ⟨-, hsmall⟩, rfl⟩
      exact ⟨.inr ⟨⟨e, rfl⟩, .inl hsmall⟩, rfl⟩
  · rintro _ _ ⟨⟨keyBlock, macBlock, ⟨⟩, hkeyBlock, hmacBlock⟩ | ⟨⟨_, ⟨⟩⟩, _⟩, rfl⟩
    exact .inl ⟨keyBlock, macBlock, rfl, hkeyBlock, hmacBlock, rfl⟩
  · rintro e _ ⟨⟨_, _, ⟨⟩, _⟩ | ⟨-, hsmall⟩, rfl⟩
    apply (abandon_ensures id).andThen
    rintro _ _ rfl
    exact Ensures.throw (.inr ⟨⟨e, rfl⟩, hsmall, rfl⟩)

/-- A start that has its identifier and has sealed nothing yet. -/
structure Opening where
  session : UInt32
  key : Rsa.PublicKey
  sharedKey : Bytes
  localMac : Bytes

/-- The first part of a start, up to the reservation. -/
def beginStart (now : Instant) (hostkey : Bytes) : Action Opening := do
  let key ← presented hostkey
  let sharedKey ← draw keyLength
  let localMac ← draw keyLength
  let id ← reserve now (.ofHostkey hostkey) sharedKey localMac
  return ⟨id, key, sharedKey, localMac⟩

/-- The second part of a start: sealing, and moving the session on. -/
def endStart (now : Instant) (o : Opening) : Action (UInt32 × Bytes × Bytes) := do
  let blocks ← tryCatch (do return (← sealFor o.key o.sharedKey, ← sealFor o.key o.localMac))
    fun e => do abandon o.session; throw e
  finishStart now o.session
  return (o.session, blocks)

/-- A start is its two parts with nothing between them. -/
theorem start_eq (now : Instant) (hostkey : Bytes) :
    start now hostkey = beginStart now hostkey >>= endStart now := by
  simp only [start, beginStart, endStart, bind_assoc, pure_bind]

/-- The session of a start that has sealed nothing yet. -/
def Opening.reserved (o : Opening) (hostkey : Bytes) : Session :=
  .fresh 0 .initiator (.ofHostkey hostkey) o.sharedKey o.localMac

theorem beginStart_ensures (now : Instant) (hostkey : Bytes) :
    Ensures R v (beginStart now hostkey) fun res v' =>
      (∃ o, res = .ok o ∧ Hostkey.parse hostkey = .ok o.key ∧ o.sharedKey.length = keyLength ∧
        o.localMac.length = keyLength ∧ v o.session = none ∧
        v' = update v o.session (some (o.reserved hostkey))) ∨
      (∃ e, res = .error e) ∧ v' = v := by
  apply (presented_ensures hostkey).bind
  · rintro key _ ⟨⟨_, ⟨⟩, hkey⟩ | ⟨⟨_, ⟨⟩⟩, _⟩, rfl⟩
    apply (draw_ensures keyLength).andThen
    rintro sharedKey _ ⟨hsecret, rfl⟩
    apply (draw_ensures keyLength).andThen
    rintro localMac _ ⟨hmac, rfl⟩
    apply (reserve_ensures now _ sharedKey localMac).bind
    · rintro id _ (⟨_, ⟨⟩, hfree, rfl⟩ | ⟨⟨_, ⟨⟩⟩, _⟩)
      exact Ensures.pure (.inl ⟨⟨id, key, sharedKey, localMac⟩, rfl, hkey, hsecret, hmac, hfree,
        rfl⟩)
    · rintro e _ (⟨_, ⟨⟩, _⟩ | ⟨-, rfl⟩)
      exact .inr ⟨⟨e, rfl⟩, rfl⟩
  · rintro e _ ⟨⟨_, ⟨⟩, _⟩ | -, rfl⟩
    exact .inr ⟨⟨e, rfl⟩, rfl⟩

theorem endStart_ensures (now : Instant) (o : Opening) :
    Ensures R v (endStart now o) fun res v' =>
      (∃ keyBlock macBlock x, res = .ok (o.session, keyBlock, macBlock) ∧
        o.key.Seals o.sharedKey keyBlock ∧ o.key.Seals o.localMac macBlock ∧
        v o.session = some x ∧ x.handshake = .fresh .initiator ∧
        v' = update v o.session
          (some { x with handshake := ⟨.initiator, .awaitingConfirm⟩ })) ∨
      (∃ e, res = .error e) ∧ ((∀ x, v o.session = some x → x.handshake ≠ .fresh .initiator) ∧
          v' = v ∨
        (o.key.size < o.sharedKey.length + Rsa.minPadding ∨
          o.key.size < o.localMac.length + Rsa.minPadding) ∧ v' = update v o.session none) := by
  apply (sealBlocks_ensures o.key o.session o.sharedKey o.localMac).bind
  · rintro ⟨keyBlock, macBlock⟩ _
      (⟨_, _, ⟨⟩, hkeyBlock, hmacBlock, rfl⟩ | ⟨⟨_, ⟨⟩⟩, _⟩)
    apply (finishStart_cases now o.session).bind
    · rintro _ _ (⟨_, x, ⟨⟩, hx, hfresh, rfl⟩ | ⟨⟨_, ⟨⟩⟩, _⟩)
      exact Ensures.pure (.inl ⟨keyBlock, macBlock, x, rfl, hkeyBlock, hmacBlock, hx, hfresh, rfl⟩)
    · rintro e _ (⟨_, _, ⟨⟩, _⟩ | ⟨-, hother, rfl⟩)
      exact .inr ⟨⟨e, rfl⟩, .inl ⟨hother, rfl⟩⟩
  · rintro e _ (⟨_, _, ⟨⟩, _⟩ | ⟨-, hsmall, rfl⟩)
    exact .inr ⟨⟨e, rfl⟩, .inr ⟨hsmall, rfl⟩⟩

/-- A session that waits for the second handshake, and the blocks of the first one. -/
structure Started (hostkey : Bytes) (x : Session) (keyBlock macBlock : Bytes) : Prop where
  handshake_eq : x.handshake = ⟨.initiator, .awaitingConfirm⟩
  peer_eq : x.peer = .ofHostkey hostkey
  length_sharedKey : x.sharedKey.length = keyLength
  remoteMac?_eq : x.remoteMac? = none
  sealed : ∃ key, Hostkey.parse hostkey = .ok key ∧
    key.Seals x.sharedKey keyBlock ∧ key.Seals x.localMac macBlock

theorem start_ensures (now : Instant) (hostkey : Bytes) :
    Ensures R v (start now hostkey) fun res v' =>
      (∃ id keyBlock macBlock x, res = .ok (id, keyBlock, macBlock) ∧ v id = none ∧
        v' = update v id (some x) ∧ Started hostkey x keyBlock macBlock) ∨
      (∃ e, res = .error e) ∧ v' = v := by
  rw [start_eq]
  apply (beginStart_ensures now hostkey).bind
  · rintro o _ (⟨_, ⟨⟩, hkey, hsecret, hmac, hfree, rfl⟩ | ⟨⟨_, ⟨⟩⟩, _⟩)
    apply (endStart_ensures now o).mono
    rintro _ _ (⟨keyBlock, macBlock, x, rfl, hkeyBlock, hmacBlock, hx, -, rfl⟩ |
      ⟨herror, ⟨hother, -⟩ | ⟨-, rfl⟩⟩)
    · rw [update_self] at hx
      obtain rfl := Option.some.inj hx
      rw [update_idem]
      exact .inl ⟨_, keyBlock, macBlock, _, rfl, hfree, rfl,
        ⟨rfl, rfl, hsecret, rfl, o.key, hkey, hkeyBlock, hmacBlock⟩⟩
    · exact (hother _ (update_self _ _ _) rfl).elim
    · exact .inr ⟨herror, by rw [update_idem, update_eq_self_iff.2 hfree.symm]⟩
  · rintro e _ (⟨_, ⟨⟩, _⟩ | ⟨-, rfl⟩)
    exact .inr ⟨⟨e, rfl⟩, rfl⟩

/-! ### Accepting -/

/-- A session that was established by a first handshake, and the block of the second one. -/
structure Accepted (R : Setting) (hostkey keyBlock macBlock : Bytes) (y : Session)
    (block : Bytes) : Prop where
  handshake_eq : y.handshake = ⟨.responder, .established⟩
  peer_eq : y.peer = .ofHostkey hostkey
  opened : R.keypair.decrypt keyBlock = .ok y.sharedKey
  openedMac : ∃ mac, R.keypair.decrypt macBlock = .ok mac ∧ y.remoteMac? = some mac
  valid : Aes.validLength y.sharedKey.length
  sealed : ∃ key, Hostkey.parse hostkey = .ok key ∧ key.Seals y.localMac block

theorem enroll_ensures (now : Instant) (key : Rsa.PublicKey) (peer : Identity)
    (sharedKey remoteMac : Bytes) :
    Ensures R v (enroll now key peer sharedKey remoteMac) fun res v' =>
      (∃ id block localMac, res = .ok (id, block) ∧ v id = none ∧ key.Seals localMac block ∧
        v' = update v id (some ⟨⟨.responder, .established⟩, peer, sharedKey, localMac,
          some remoteMac, 0⟩)) ∨
      (∃ e, res = .error e) ∧ v' = v := by
  refine (draw_ensures keyLength).andThen ?_
  rintro localMac _ ⟨-, rfl⟩
  refine (sealFor_ensures key localMac).bind ?_ ?_
  · rintro block _ ⟨⟨_, ⟨⟩, hblock⟩ | ⟨⟨_, ⟨⟩⟩, _⟩, rfl⟩
    refine allocate_ensures.bind ?_ ?_
    · rintro id _ ⟨⟨_, ⟨⟩, hfree⟩ | ⟨_, ⟨⟩⟩, rfl⟩
      refine (advance_ensures rfl).andThen ?_
      rintro _ _ ⟨rfl, rfl⟩
      refine (store_ensures id _).andThen ?_
      rintro _ _ rfl
      refine (bindSession_ensures id _).andThen ?_
      rintro _ _ rfl
      exact Ensures.pure (.inl ⟨id, block, localMac, rfl, hfree, hblock, rfl⟩)
    · rintro e _ ⟨⟨_, ⟨⟩, _⟩ | -, rfl⟩
      exact .inr ⟨⟨e, rfl⟩, rfl⟩
  · rintro e _ ⟨⟨_, ⟨⟩, _⟩ | -, rfl⟩
    exact .inr ⟨⟨e, rfl⟩, rfl⟩

theorem accept_ensures (now : Instant) (hostkey keyBlock macBlock : Bytes) :
    Ensures R v (accept now hostkey keyBlock macBlock) fun res v' =>
      (∃ id block y, res = .ok (id, block) ∧ v id = none ∧ v' = update v id (some y) ∧
        Accepted R hostkey keyBlock macBlock y block) ∨
      (∃ e, res = .error e) ∧ v' = v := by
  refine (presented_ensures hostkey).bind ?_ ?_
  · rintro key _ ⟨⟨_, ⟨⟩, hkey⟩ | ⟨⟨_, ⟨⟩⟩, _⟩, rfl⟩
    refine (openBlock_ensures keyBlock).bind ?_ ?_
    · rintro secret _ ⟨⟨_, ⟨⟩, hsecret⟩ | ⟨⟨_, ⟨⟩⟩, _⟩, rfl⟩
      refine (openBlock_ensures macBlock).bind ?_ ?_
      · rintro mac _ ⟨⟨_, ⟨⟩, hmac⟩ | ⟨⟨_, ⟨⟩⟩, _⟩, rfl⟩
        split
        · next hvalid =>
          refine (enroll_ensures now key _ secret mac).mono ?_
          rintro _ _ (⟨id, block, localMac, rfl, hfree, hblock, rfl⟩ | herror)
          · exact .inl ⟨id, block, _, rfl, hfree, rfl,
              ⟨rfl, rfl, hsecret, ⟨mac, hmac, rfl⟩, hvalid, key, hkey, hblock⟩⟩
          · exact .inr herror
        · exact Ensures.throw (.inr ⟨⟨_, rfl⟩, rfl⟩)
      · rintro e _ ⟨⟨_, ⟨⟩, _⟩ | -, rfl⟩
        exact .inr ⟨⟨e, rfl⟩, rfl⟩
    · rintro e _ ⟨⟨_, ⟨⟩, _⟩ | -, rfl⟩
      exact .inr ⟨⟨e, rfl⟩, rfl⟩
  · rintro e _ ⟨⟨_, ⟨⟩, _⟩ | -, rfl⟩
    exact .inr ⟨⟨e, rfl⟩, rfl⟩

/-! ### Confirming and closing -/

theorem checkConfirm_cases (id : UInt32) :
    Ensures R v (checkConfirm id) fun res v' =>
      ((∃ a x, res = .ok a ∧ v id = some x ∧ x.handshake = ⟨.initiator, .awaitingConfirm⟩) ∨
        (∃ e, res = .error e) ∧
          ∀ x, v id = some x → x.handshake ≠ ⟨.initiator, .awaitingConfirm⟩) ∧ v' = v := by
  apply (lookup_cases id).bind
  · rintro s _ ⟨⟨_, ⟨⟩, hs⟩ | ⟨⟨_, ⟨⟩⟩, _⟩, rfl⟩
    apply (advance_cases id s .receiveHandshake2).bind
    · rintro _ _ ⟨⟨state, hstate, ⟨⟩⟩ | ⟨⟨_, ⟨⟩⟩, _⟩, rfl⟩
      exact Ensures.pure ⟨.inl ⟨_, _, rfl, hs, (target_receiveHandshake2.1 hstate).1⟩, rfl⟩
    · rintro e _ ⟨⟨_, _, ⟨⟩⟩ | ⟨-, fault, hfault⟩, rfl⟩
      refine ⟨.inr ⟨⟨e, rfl⟩, ?_⟩, rfl⟩
      intro x hx hawaits
      rw [hs] at hx
      obtain rfl := Option.some.inj hx
      exact ok_ne_error (target_receiveHandshake2.2 ⟨hawaits, rfl⟩) hfault
  · rintro e _ ⟨⟨_, ⟨⟩, _⟩ | ⟨-, hnone⟩, rfl⟩
    refine ⟨.inr ⟨⟨e, rfl⟩, ?_⟩, rfl⟩
    intro x hx
    rw [hnone] at hx
    cases hx

theorem commitConfirm_cases (now : Instant) (id : UInt32) (mac : Bytes) :
    Ensures R v (commitConfirm now id mac) fun res v' =>
      (∃ a x, res = .ok a ∧ v id = some x ∧ x.handshake = ⟨.initiator, .awaitingConfirm⟩ ∧
        v' = update v id
          (some { x with handshake := ⟨.initiator, .established⟩, remoteMac? := some mac })) ∨
      (∃ e, res = .error e) ∧ (∀ x, v id = some x → x.handshake ≠ ⟨.initiator, .awaitingConfirm⟩) ∧
        v' = v := by
  apply (lookup_cases id).bind
  · rintro s _ ⟨⟨_, ⟨⟩, hs⟩ | ⟨⟨_, ⟨⟩⟩, _⟩, rfl⟩
    apply (advance_cases id s .receiveHandshake2).bind
    · rintro _ _ ⟨⟨state, hstate, ⟨⟩⟩ | ⟨⟨_, ⟨⟩⟩, _⟩, rfl⟩
      obtain ⟨hawaits, rfl⟩ := target_receiveHandshake2.1 hstate
      apply (store_ensures id _).andThen
      rintro _ _ rfl
      refine Ensures.pure (.inl ⟨_, s.untimed, rfl, hs, hawaits, ?_⟩)
      rw [hawaits]
      rfl
    · rintro e _ ⟨⟨_, _, ⟨⟩⟩ | ⟨-, fault, hfault⟩, rfl⟩
      refine .inr ⟨⟨e, rfl⟩, ?_, rfl⟩
      intro x hx hawaits
      rw [hs] at hx
      obtain rfl := Option.some.inj hx
      exact ok_ne_error (target_receiveHandshake2.2 ⟨hawaits, rfl⟩) hfault
  · rintro e _ ⟨⟨_, ⟨⟩, _⟩ | ⟨-, hnone⟩, rfl⟩
    refine .inr ⟨⟨e, rfl⟩, ?_, rfl⟩
    intro x hx
    rw [hnone] at hx
    cases hx

/-- The second part of a confirmation: opening the block, and moving the session on. -/
def endConfirm (now : Instant) (id : UInt32) (macBlock : Bytes) : Action Unit := do
  let peer ← commitConfirm now id (← openBlock macBlock)
  bindSession id peer

/-- A confirmation is its two parts with nothing between them. -/
theorem confirm_eq (now : Instant) (id : UInt32) (macBlock : Bytes) :
    confirm now id macBlock = checkConfirm id >>= fun _ => endConfirm now id macBlock := rfl

theorem endConfirm_ensures (now : Instant) (id : UInt32) (block : Bytes) :
    Ensures R v (endConfirm now id block) fun res v' =>
      (∃ a x mac, res = .ok a ∧ v id = some x ∧ x.handshake = ⟨.initiator, .awaitingConfirm⟩ ∧
        R.keypair.decrypt block = .ok mac ∧ v' = update v id
          (some { x with handshake := ⟨.initiator, .established⟩, remoteMac? := some mac })) ∨
      (∃ e, res = .error e) ∧ ((∃ e, R.keypair.decrypt block = .error e) ∨
        ∀ x, v id = some x → x.handshake ≠ ⟨.initiator, .awaitingConfirm⟩) ∧ v' = v := by
  apply (openBlock_ensures block).bind
  · rintro mac _ ⟨⟨_, ⟨⟩, hmac⟩ | ⟨⟨_, ⟨⟩⟩, _⟩, rfl⟩
    apply (commitConfirm_cases now id mac).bind
    · rintro peer _ (⟨_, x, ⟨⟩, hx, hawaits, rfl⟩ | ⟨⟨_, ⟨⟩⟩, _⟩)
      apply (bindSession_ensures id peer).mono
      rintro _ _ ⟨a, rfl, rfl⟩
      exact .inl ⟨a, x, mac, rfl, hx, hawaits, hmac, rfl⟩
    · rintro e _ (⟨_, _, ⟨⟩, _⟩ | ⟨-, hother, rfl⟩)
      exact .inr ⟨⟨e, rfl⟩, .inr hother, rfl⟩
  · rintro e _ ⟨⟨_, ⟨⟩, _⟩ | ⟨-, hmac⟩, rfl⟩
    exact .inr ⟨⟨e, rfl⟩, .inl hmac, rfl⟩

/-- A confirmation moves on a session that waits for it, or fails and changes nothing. -/
theorem confirm_cases (now : Instant) (id : UInt32) (block : Bytes) :
    Ensures R v (confirm now id block) fun res v' =>
      (∃ a x mac, res = .ok a ∧ v id = some x ∧ x.handshake = ⟨.initiator, .awaitingConfirm⟩ ∧
        v' = update v id
          (some { x with handshake := ⟨.initiator, .established⟩, remoteMac? := some mac })) ∨
      (∃ e, res = .error e) ∧ v' = v := by
  rw [confirm_eq]
  apply (checkConfirm_cases id).bind
  · rintro _ _ ⟨-, rfl⟩
    apply (endConfirm_ensures now id block).mono
    rintro _ _ (⟨a, x, mac, rfl, hx, hawaits, -, rfl⟩ | ⟨herror, -, rfl⟩)
    · exact .inl ⟨a, x, mac, rfl, hx, hawaits, rfl⟩
    · exact .inr ⟨herror, rfl⟩
  · rintro e _ ⟨-, rfl⟩
    exact .inr ⟨⟨e, rfl⟩, rfl⟩

theorem confirm_ensures (now : Instant) {id : UInt32} {x : Session} (h : v id = some x)
    (hx : x.handshake = ⟨.initiator, .awaitingConfirm⟩) (block : Bytes) :
    Ensures R v (confirm now id block) fun res v' =>
      (∃ mac, R.keypair.decrypt block = .ok mac ∧ (∃ a, res = .ok a) ∧
        v' = update v id
          (some { x with handshake := ⟨.initiator, .established⟩, remoteMac? := some mac })) ∨
      (∃ e, R.keypair.decrypt block = .error e) ∧ (∃ e, res = .error e) ∧ v' = v := by
  rw [confirm_eq]
  apply (checkConfirm_cases id).bind
  · rintro _ _ ⟨-, rfl⟩
    apply (endConfirm_ensures now id block).mono
    rintro _ _ (⟨a, x', mac, rfl, hx', -, hmac, rfl⟩ | ⟨herror, hmac | hother, rfl⟩)
    · rw [h] at hx'
      obtain rfl := Option.some.inj hx'
      exact .inl ⟨mac, hmac, ⟨a, rfl⟩, rfl⟩
    · exact .inr ⟨hmac, herror, rfl⟩
    · exact (hother x h hx).elim
  · rintro e _ ⟨⟨_, _, ⟨⟩, _⟩ | ⟨-, hother⟩, rfl⟩
    exact (hother x h hx).elim

theorem holdings_close (r : SessionRegistry) (id : UInt32) :
    (r.close id).setting = r.setting ∧ (r.close id).holdings = update r.holdings id none := by
  unfold close contains
  split
  · exact ⟨rfl, holdings_erase r id⟩
  · next habsent =>
    rw [contains_eq, Bool.not_eq_true, Option.isSome_eq_false_iff, Option.isNone_iff_eq_none]
      at habsent
    exact ⟨rfl, (update_eq_self_iff.2 habsent.symm).symm⟩

/-! ### Requests that can be met -/

/-- A search finds an identifier that no session has. -/
def Spare (r : SessionRegistry) : Prop :=
  ∃ id, (r.ids.allocate r.sessions.contains).1 = .ok id

/-- While no more identifiers are in use than the pool can do without, a search finds one. -/
theorem spare_of_supplies {r : SessionRegistry} {m : Nat}
    (h : IdPool.Supplies r.ids.draw r.ids.attempts m) (used : List UInt32) (hlen : used.length ≤ m)
    (hused : ∀ id, r.holdings id ≠ none → id ∈ used) : Spare r := by
  apply h.finds used hlen
  intro id hid
  rw [contains_eq] at hid
  exact hused id (Option.isSome_iff_ne_none.1 hid)

/-- A hostkey that a session can be started for. -/
def Startable (hostkey : Bytes) : Prop :=
  ∃ key, Hostkey.parse hostkey = .ok key ∧ keyLength + Rsa.minPadding ≤ key.size

/-- A first handshake that a session can be accepted for. -/
def Acceptable (R : Setting) (hostkey keyBlock macBlock : Bytes) : Prop :=
  Startable hostkey ∧
    (∃ secret, R.keypair.decrypt keyBlock = .ok secret ∧ Aes.validLength secret.length) ∧
    ∃ mac, R.keypair.decrypt macBlock = .ok mac

theorem sealFor_ok {r : SessionRegistry} {key : Rsa.PublicKey} {message : Bytes}
    (hsize : message.length + Rsa.minPadding ≤ key.size) :
    ∃ block tape, (sealFor key message).result r = (.ok block, { r with tape := tape }) := by
  simp only [sealFor, drawNonZero, result_bind, result_modifyGet]
  unfold Rsa.PublicKey.encrypt
  rw [if_neg (Nat.not_lt.2 hsize)]
  exact ⟨_, _, rfl⟩

theorem beginStart_ok {r : SessionRegistry} {hostkey : Bytes} {key : Rsa.PublicKey} (now : Instant)
    (hkey : Hostkey.parse hostkey = .ok key) (hspare : Spare r) :
    ∃ o, ((beginStart now hostkey).result r).1 = .ok o := by
  obtain ⟨id, hid⟩ := hspare
  simp only [beginStart, presented, hkey, draw, reserve, store, result_bind, result_pure,
    result_modifyGet, result_modify, allocate_result, hid]
  exact ⟨_, rfl⟩

/-- A session is started for a hostkey that can be used if an identifier is found. -/
theorem start_ok {r : SessionRegistry} {hostkey : Bytes} (now : Instant) (h : Startable hostkey)
    (hspare : Spare r) : ∃ a, ((start now hostkey).result r).1 = .ok a := by
  obtain ⟨key, hkey, hsize⟩ := h
  obtain ⟨o, hbegin⟩ := beginStart_ok now hkey hspare
  obtain ⟨-, hopening⟩ := beginStart_ensures now hostkey r rfl rfl
  rw [start_eq, result_bind]
  generalize (beginStart now hostkey).result r = begun at hbegin hopening ⊢
  obtain ⟨_, r₁⟩ := begun
  obtain rfl : _ = Except.ok o := hbegin
  obtain ⟨_, ⟨⟩, hparse, hsecret, hmac, -, hreserved⟩ | ⟨⟨_, ⟨⟩⟩, -⟩ := hopening
  obtain rfl := Except.ok.inj (hkey.symm.trans hparse)
  obtain ⟨-, hcome⟩ := endStart_ensures now o r₁ rfl rfl
  obtain ⟨_, _, _, hres, -⟩ | ⟨-, ⟨hother, -⟩ | ⟨hsmall, -⟩⟩ := hcome
  · exact ⟨_, hres⟩
  · exact (hother _ (by rw [hreserved, update_self]) rfl).elim
  · omega

theorem enroll_ok {r : SessionRegistry} {key : Rsa.PublicKey} (now : Instant) (peer : Identity)
    (sharedKey remoteMac : Bytes) (hsize : keyLength + Rsa.minPadding ≤ key.size)
    (hspare : Spare r) : ∃ a, ((enroll now key peer sharedKey remoteMac).result r).1 = .ok a := by
  obtain ⟨id, hid⟩ := hspare
  have hlocal : (r.tape.draw keyLength).1.length = keyLength := Tape.length_draw _ keyLength
  obtain ⟨block, tape, hseal⟩ :=
    @sealFor_ok { r with tape := (r.tape.draw keyLength).2 } key (r.tape.draw keyLength).1
      (hlocal.symm ▸ hsize)
  simp only [enroll, draw, result_bind, result_modifyGet, hseal, allocate_result, hid]
  exact ⟨_, rfl⟩

/-- A session is accepted for blocks that can be opened if an identifier is found. -/
theorem accept_ok {r : SessionRegistry} {hostkey keyBlock macBlock : Bytes} (now : Instant)
    (h : Acceptable r.setting hostkey keyBlock macBlock) (hspare : Spare r) :
    ∃ a, ((accept now hostkey keyBlock macBlock).result r).1 = .ok a := by
  obtain ⟨⟨key, hkey, hsize⟩, ⟨secret, hsecret, hvalid⟩, mac, hmac⟩ := h
  have hsecret' : r.keypair.decrypt keyBlock = .ok secret := hsecret
  have hmac' : r.keypair.decrypt macBlock = .ok mac := hmac
  simp only [accept, presented, hkey, result_bind, result_pure, openBlock_result, hsecret', hmac',
    Except.mapError, if_pos hvalid]
  exact enroll_ok now _ secret mac hsize hspare

/-- An acceptance, with what a failure says of the registry. -/
theorem accept_gives (r : SessionRegistry) (now : Instant) (hostkey keyBlock macBlock : Bytes) :
    Gives r.setting r (accept now hostkey keyBlock macBlock) fun res v' =>
      (∃ id block y, res = .ok (id, block) ∧ r.holdings id = none ∧
        v' = update r.holdings id (some y) ∧
        Accepted r.setting hostkey keyBlock macBlock y block) ∨
      (∃ e, res = .error e) ∧ (Acceptable r.setting hostkey keyBlock macBlock → ¬ Spare r) ∧
        v' = r.holdings := by
  obtain ⟨hset, haccept⟩ := accept_ensures now hostkey keyBlock macBlock r rfl rfl
  refine ⟨hset, ?_⟩
  obtain haccepted | ⟨⟨e, herror⟩, hkept⟩ := haccept
  · exact .inl haccepted
  · refine .inr ⟨⟨e, herror⟩, ?_, hkept⟩
    intro hacceptable hspare
    obtain ⟨_, hok⟩ := accept_ok now hacceptable hspare
    exact ok_ne_error hok herror

/-! ### Both ends of a session -/

/-- What a registry seals for a hostkey when it starts a session now opens under a keypair to what
was sealed, if it opens there at all. -/
def Faithful (r : SessionRegistry) (now : Instant) (hostkey : Bytes) (k : Keypair) : Prop :=
  ∀ (id : UInt32) (keyBlock macBlock : Bytes) (x : Session),
    ((start now hostkey).result r).1 = .ok (id, keyBlock, macBlock) →
    ((start now hostkey).result r).2.holdings id = some x →
    ∀ secret mac, k.decrypt keyBlock = .ok secret → k.decrypt macBlock = .ok mac →
      secret = x.sharedKey ∧ mac = x.localMac

/-- What is sealed for a keypair's own hostkey opens to what was sealed. -/
theorem faithful_of_inverts (r : SessionRegistry) (now : Instant) {k : Keypair} (h : k.Inverts) :
    Faithful r now k.hostkey k := by
  intro id keyBlock macBlock x hres hx secret mac hsecret hmac
  obtain ⟨-, hstart⟩ := start_ensures now k.hostkey r rfl rfl
  rw [hres] at hstart
  obtain ⟨_, _, _, x', ⟨⟩, -, hset, hstarted⟩ | ⟨⟨_, ⟨⟩⟩, -⟩ := hstart
  rw [hset, update_self] at hx
  obtain rfl := Option.some.inj hx
  obtain ⟨key, hkey, hkeyBlock, hmacBlock⟩ := hstarted.sealed
  rw [h key _ _ hkey hkeyBlock] at hsecret
  rw [h key _ _ hkey hmacBlock] at hmac
  exact ⟨(Except.ok.inj hsecret).symm, (Except.ok.inj hmac).symm⟩

/-- A start, with the keypairs that open its blocks faithfully. -/
theorem start_faithful (r : SessionRegistry) (now : Instant) (hostkey : Bytes) :
    Gives r.setting r (start now hostkey) fun res v' =>
      (∃ id keyBlock macBlock x, res = .ok (id, keyBlock, macBlock) ∧ r.holdings id = none ∧
        v' = update r.holdings id (some x) ∧ Started hostkey x keyBlock macBlock ∧
        ∀ k, Faithful r now hostkey k → ∀ secret mac, k.decrypt keyBlock = .ok secret →
          k.decrypt macBlock = .ok mac → secret = x.sharedKey ∧ mac = x.localMac) ∨
      (∃ e, res = .error e) ∧ (Startable hostkey → ¬ Spare r) ∧ v' = r.holdings := by
  obtain ⟨hset, hstart⟩ := start_ensures now hostkey r rfl rfl
  refine ⟨hset, ?_⟩
  obtain ⟨id, keyBlock, macBlock, x, hres, hfree, hx, hstarted⟩ | ⟨⟨e, herror⟩, hkept⟩ := hstart
  · refine .inl ⟨id, keyBlock, macBlock, x, hres, hfree, hx, hstarted, ?_⟩
    intro k hk secret mac
    exact hk id keyBlock macBlock x hres (by rw [hx, update_self]) secret mac
  · refine .inr ⟨⟨e, herror⟩, ?_, hkept⟩
    intro hstartable hspare
    obtain ⟨_, hok⟩ := start_ok now hstartable hspare
    exact ok_ne_error hok herror

end Steps

end SessionRegistry

end OnionTunnel
