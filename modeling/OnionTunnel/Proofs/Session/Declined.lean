import OnionTunnel.Proofs.Session.Agreement
import OnionTunnel.Proofs.Session.Footprint

/-!
# Declined requests

A request can fail at many points, some of them behind changes to the registry. Whatever the point,
a request that is declined leaves no trace: the sessions, but for the moments of their last
activity, and the peer directory are what they were.

An action is `Clean` if it has changed nothing where it fails. It is so if it changes nothing up to
the last step that can fail, or if it takes back what it did.
-/

namespace OnionTunnel.SessionRegistry

variable {α β : Type} {r r' : SessionRegistry} {now : Instant}

/-- A registry is as before but for the moments of last activity and for how far its identifiers and
its random bytes are used up. -/
structure Traceless (r r' : SessionRegistry) : Prop where
  holdings : r'.holdings = r.holdings
  directory : r'.directory = r.directory
  setting : r'.setting = r.setting

theorem Confined.traceless (h : Confined [] [] r r') : Traceless r r' where
  holdings := funext fun _ => h.holdings_eq List.not_mem_nil
  directory := h.directory rfl
  setting := h.setting

/-! ### Actions that change nothing where they fail -/

/-- Where an action fails, everything is as it was before. -/
def Action.Clean (x : Action α) : Prop :=
  ∀ r e r', x.result r = (.error e, r') → Confined [] [] r r'

namespace Action.Clean

theorem of_leaves {x : Action α} (h : Leaves x [] []) : Clean x := by
  intro r e r' heq
  have hsame := h r
  rw [heq] at hsame
  exact hsame

/-- An action that does not fail is clean whatever it changes. -/
theorem of_ok {x : Action α} (h : ∀ r, ∃ a, (x.result r).1 = .ok a) : Clean x := by
  intro r e r' heq
  obtain ⟨a, ha⟩ := h r
  rw [heq] at ha
  cases ha

/-- A clean action behind one that changes nothing. -/
theorem after {x : Action α} {f : α → Action β} (hx : Leaves x [] []) (hf : ∀ a, Clean (f a)) :
    Clean (x >>= f) := by
  intro r e r' heq
  have hsame := hx r
  rw [result_bind] at heq
  split at heq
  · next a r₁ hfirst =>
    rw [hfirst] at hsame
    exact Confined.trans hsame (hf a r₁ e r' heq)
  · next e₁ r₁ hfirst =>
    rw [hfirst] at hsame
    obtain ⟨-, rfl⟩ := Prod.mk.inj heq
    exact hsame

/-- A clean action, and one behind it that does not fail. -/
theorem thenOk {x : Action α} {f : α → Action β} (hx : Clean x)
    (hf : ∀ r a r', x.result r = (.ok a, r') → ∃ b, ((f a).result r').1 = .ok b) :
    Clean (x >>= f) := by
  intro r e r' heq
  rw [result_bind] at heq
  split at heq
  · next a r₁ hfirst =>
    obtain ⟨b, hb⟩ := hf r a r₁ hfirst
    rw [heq] at hb
    cases hb
  · next e₁ r₁ hfirst =>
    obtain ⟨-, rfl⟩ := Prod.mk.inj heq
    exact hx r e₁ r₁ hfirst

theorem throw (e : SessionError) : Clean (MonadExcept.throw e : Action α) :=
  of_leaves (.throw e)

end Action.Clean

open SessionRegistry.Action (Leaves Clean Grants)

/-! ### Operations -/

/-- A session that was stored is dropped again if its keys cannot be sealed. -/
theorem start_clean (now : Instant) (hostkey : Bytes) : Clean (start now hostkey) := by
  intro r e r' heq
  obtain ⟨-, hstart⟩ := start_ensures now hostkey r rfl rfl
  have hleft := start_leaves now hostkey r
  rw [heq] at hstart hleft
  obtain ⟨_, _, _, _, ⟨⟩, -⟩ | ⟨-, hkept⟩ := hstart
  obtain hsame | ⟨id, hfree, hsame⟩ := hleft
  · exact hsame
  · exact hsame.of_holdings hfree hkept

/-- A session is accepted by steps of which none fails once it is stored. -/
theorem accept_clean (now : Instant) (hostkey keyBlock macBlock : Bytes) :
    Clean (accept now hostkey keyBlock macBlock) := by
  apply Clean.after (presented_leaves hostkey)
  intro key
  apply Clean.after (openBlock_leaves keyBlock)
  intro sharedKey
  apply Clean.after (openBlock_leaves macBlock)
  intro remoteMac
  split
  · apply Clean.after (draw_leaves keyLength)
    intro localMac
    apply Clean.after (sealFor_leaves key localMac)
    intro block
    apply Clean.after allocate_leaves
    intro id
    apply Clean.after (advance_leaves id _ _)
    intro s
    exact .of_ok fun r => ⟨(id, block), rfl⟩
  · exact .throw _

/-- A session is confirmed by steps of which none fails once the peer's tag key is stored. -/
theorem confirm_clean (now : Instant) (id : UInt32) (block : Bytes) :
    Clean (confirm now id block) := by
  apply Clean.after
  · apply (lookup_leaves id).bind
    intro s
    apply (advance_leaves id s _).bind
    intro _
    exact .pure _
  · intro _
    apply Clean.after (openBlock_leaves block)
    intro mac
    apply Clean.thenOk
    · apply Clean.after (lookup_leaves id)
      intro s
      apply Clean.after (advance_leaves id s _)
      intro s'
      exact .of_ok fun r => ⟨s'.peer, rfl⟩
    · intro r peer r' _
      exact ⟨⟨⟩, rfl⟩

/-! ### Requests -/

/-- The reply to a start is written behind the last step that can fail. -/
theorem dispatch_sessionStart_clean (hostkey : Bytes) :
    Clean (dispatch now (.sessionStart hostkey)) := by
  apply Clean.thenOk (start_clean now hostkey)
  rintro r ⟨id, keyBlock, macBlock⟩ r' heq
  obtain ⟨-, hstart⟩ := start_ensures now hostkey r rfl rfl
  rw [heq] at hstart
  obtain ⟨_, _, _, x, ⟨⟩, -, -, hstarted⟩ | ⟨⟨_, ⟨⟩⟩, -⟩ := hstart
  obtain ⟨f, hf⟩ := hstarted.encode_ok
  simp only [hf]
  exact ⟨_, rfl⟩

theorem dispatch_incomingHandshake1_clean (hostkey handshake : Bytes) :
    Clean (dispatch now (.incomingHandshake1 hostkey handshake)) := by
  apply Clean.after (ofFrame_leaves _)
  rintro ⟨keyBlock, macBlock⟩
  apply Clean.thenOk (accept_clean now hostkey keyBlock macBlock)
  rintro r ⟨id, block⟩ r' heq
  obtain ⟨-, haccept⟩ := accept_ensures now hostkey keyBlock macBlock r rfl rfl
  rw [heq] at haccept
  obtain ⟨_, _, y, ⟨⟩, -, -, haccepted⟩ | ⟨⟨_, ⟨⟩⟩, -⟩ := haccept
  obtain ⟨f, hf⟩ := haccepted.encode_ok
  simp only [hf]
  exact ⟨_, rfl⟩

theorem dispatch_incomingHandshake2_clean (id : UInt32) (handshake : Bytes) :
    Clean (dispatch now (.incomingHandshake2 id handshake)) := by
  apply Clean.after (ofFrame_leaves _)
  intro block
  apply Clean.thenOk (confirm_clean now id block)
  intro r a r' _
  exact ⟨_, rfl⟩

/-! ### Layers -/

section Layers
variable {R : Setting} {v : Holdings}

/-- A text goes into a reply without any change to the holdings, whether it fits or not. -/
theorem fitting_keeps {x : Action Bytes} (hx : Ensures R v x fun _ v' => v' = v)
    (reply : Bytes → Message) :
    Ensures R v (do return some (reply (← fitting (← x)))) fun _ v' => v' = v := by
  apply hx.bind
  · rintro text _ rfl
    apply (fitting_ensures text).bind
    · rintro text' _ ⟨-, rfl⟩
      exact Ensures.pure rfl
    · rintro e _ ⟨-, rfl⟩
      rfl
  · rintro e _ rfl
    rfl

/-- A request for layers changes the holdings nowhere, whatever comes of it. -/
theorem dispatch_layerEncrypt_keeps (now : Instant) (request : UInt16) (ids : List UInt32)
    (payload : Bytes) :
    Ensures R v (dispatch now (.layerEncrypt request ids payload)) fun _ v' => v' = v :=
  fitting_keeps ((layerEncrypt_ensures now ids payload).mono fun _ _ h => h.2)
    (.layerEncrypted request)

theorem dispatch_layerDecrypt_keeps (now : Instant) (request : UInt16) (ids : List UInt32)
    (blob : Bytes) :
    Ensures R v (dispatch now (.layerDecrypt request ids blob)) fun _ v' => v' = v :=
  fitting_keeps ((layerDecrypt_ensures now ids blob).mono fun _ _ h => h.2)
    (.layerDecrypted request)

end Layers

/-! ### What is declined -/

/-- A request that is met is not answered as one that is declined. -/
theorem dispatch_grants (now : Instant) (m : Message) :
    Grants (dispatch now m) (· ≠ some .sessionDeclined) := by
  cases m with
  | sessionStart hostkey =>
    refine Grants.bind (.any _) ?_
    intro a _
    refine Grants.bind (.any _) ?_
    intro handshake _
    exact .pure nofun
  | incomingHandshake1 hostkey handshake =>
    refine Grants.bind (.any _) ?_
    intro blocks _
    refine Grants.bind (.any _) ?_
    intro a _
    refine Grants.bind (.any _) ?_
    intro returned _
    exact .pure nofun
  | incomingHandshake2 id handshake =>
    refine Grants.bind (.any _) ?_
    intro block _
    refine Grants.bind (.any _) ?_
    intro _ _
    exact .pure nofun
  | layerEncrypt request ids payload =>
    refine Grants.bind (.any _) ?_
    intro blob _
    refine Grants.bind (.any _) ?_
    intro blob' _
    exact .pure nofun
  | layerDecrypt request ids blob =>
    refine Grants.bind (.any _) ?_
    intro text _
    refine Grants.bind (.any _) ?_
    intro text' _
    exact .pure nofun
  | sessionClose id =>
    refine Grants.bind (.any _) ?_
    intro _ _
    exact .pure nofun
  | _ => exact .pure nofun

/-- A request is declined exactly if its action fails. -/
theorem declined_iff (r : SessionRegistry) (now : Instant) (m : Message) :
    (r.handle now m).1 = some .sessionDeclined ↔ ∃ e, ((dispatch now m).result r).1 = .error e := by
  have hmet := dispatch_grants now m r
  rw [handle_eq]
  generalize (dispatch now m).result r = run at hmet
  obtain ⟨res, r'⟩ := run
  cases res with
  | ok reply =>
    constructor
    · intro h
      exact (hmet reply rfl h).elim
    · rintro ⟨_, ⟨⟩⟩
  | error e =>
    constructor
    · intro _
      exact ⟨e, rfl⟩
    · intro _
      rfl

/-- Whatever the point at which a request's action fails, it leaves no trace. -/
theorem dispatch_traceless {m : Message} {e : SessionError}
    (h : ((dispatch now m).result r).1 = .error e) :
    Traceless r ((dispatch now m).result r).2 := by
  have heq : (dispatch now m).result r = (.error e, ((dispatch now m).result r).2) :=
    Prod.ext h rfl
  cases m with
  | sessionStart hostkey => exact (dispatch_sessionStart_clean hostkey r e _ heq).traceless
  | incomingHandshake1 hostkey handshake =>
    exact (dispatch_incomingHandshake1_clean hostkey handshake r e _ heq).traceless
  | incomingHandshake2 id handshake =>
    exact (dispatch_incomingHandshake2_clean id handshake r e _ heq).traceless
  | layerEncrypt request ids payload =>
    have hleft := handle_layerEncrypt_leaves now request ids payload r
    obtain ⟨hset, hkept⟩ := dispatch_layerEncrypt_keeps now request ids payload r rfl rfl
    rw [handle_snd] at hleft
    exact ⟨hkept, hleft.directory rfl, hset⟩
  | layerDecrypt request ids blob =>
    have hleft := handle_layerDecrypt_leaves now request ids blob r
    obtain ⟨hset, hkept⟩ := dispatch_layerDecrypt_keeps now request ids blob r rfl rfl
    rw [handle_snd] at hleft
    exact ⟨hkept, hleft.directory rfl, hset⟩
  | _ => cases h

/-- A request that is declined leaves no trace: a registry holds the same sessions, in the same
states and with the same keys, and its peer directory is what it was, whatever it holds and whatever
the request. -/
theorem declined_traceless {r : SessionRegistry} {now : Instant} {m : Message}
    (h : (r.handle now m).1 = some .sessionDeclined) : Traceless r (r.handle now m).2 := by
  obtain ⟨e, he⟩ := (declined_iff r now m).1 h
  rw [handle_snd]
  exact dispatch_traceless he

/-- A start for a hostkey whose modulus is too short for a session's key is declined. -/
theorem declined_of_short (r : SessionRegistry) (now : Instant) {hostkey : Bytes}
    {key : Rsa.PublicKey} (hkey : Hostkey.parse hostkey = .ok key)
    (hshort : key.size < keyLength + Rsa.minPadding) :
    (r.handle now (.sessionStart hostkey)).1 = some .sessionDeclined := by
  obtain ⟨-, hreply⟩ := @replies_sessionStart now r hostkey
  obtain ⟨id, handshake, x, -, -, -, hoffered⟩ | ⟨hdeclined, -⟩ := hreply
  · obtain ⟨_, _, -, ⟨key', hkey', hsealed, -⟩, -⟩ := hoffered.blocks
    obtain rfl := Except.ok.inj (hkey.symm.trans hkey')
    have hsize := hsealed.le_size
    rw [hoffered.length_sharedKey] at hsize
    omega
  · exact hdeclined

/-- A hostkey whose modulus is two bytes long. -/
def shortHostkey : Bytes := Hostkey.encode ⟨3233, 17⟩

/-- A start for it fails when its session is in the table, and takes the session out again. -/
theorem declined_traceless_shortHostkey :
    (∃ o, ((beginStart 0 shortHostkey).result (twoRegistries false)).1 = .ok o) ∧
    ((twoRegistries false).handle 0 (.sessionStart shortHostkey)).1 = some .sessionDeclined ∧
    Traceless (twoRegistries false)
      ((twoRegistries false).handle 0 (.sessionStart shortHostkey)).2 := by
  have hkey : Hostkey.parse shortHostkey = .ok ⟨3233, 17⟩ :=
    Hostkey.parse_encode (by decide +kernel)
  have hdeclined := declined_of_short (twoRegistries false) 0 hkey (by decide +kernel)
  exact ⟨beginStart_ok 0 hkey (spare_twoRegistries false), hdeclined,
    declined_traceless hdeclined⟩

end OnionTunnel.SessionRegistry
