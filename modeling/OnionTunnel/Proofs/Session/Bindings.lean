import OnionTunnel.Proofs.Session.Declined
import OnionTunnel.Proofs.Session.Lifecycle
import OnionTunnel.Proofs.Session.Provenance

/-!
# Bindings of sessions

A registry writes down twice who holds the other end of a session: with the session itself, and in
its peer directory. The two are changed by different steps of an operation, so that they differ
while one runs. Between operations they agree: the directory binds a session to a peer exactly if
the session is established with that peer.

`Agrees` is the invariant. It speaks of the holdings and of the directory alone, and a step that
touches neither keeps it. An operation that stores an established session binds it right behind that,
and `Agrees.establish` takes the two steps as one; a start, which stores a session and may drop it
again, is known by what it leaves altogether.
-/

namespace OnionTunnel

/-- The peer that a session is bound to, which is the peer of an established session. -/
def Session.boundTo? (x : Session) : Option Identity :=
  if x.isEstablished then some x.peer else none

theorem Session.boundTo?_of_established {x : Session} (h : x.isEstablished = true) :
    x.boundTo? = some x.peer := if_pos h

theorem Session.boundTo?_eq_some_iff {x : Session} {peer : Identity} :
    x.boundTo? = some peer ↔ x.isEstablished = true ∧ x.peer = peer := by
  simp [boundTo?]

namespace PeerDirectory

/-- What is left of a directory once it has forgotten some sessions. -/
theorem identityOf?_foldl_forgetSession (d : PeerDirectory) (ids : List UInt32) (id : UInt32) :
    (ids.foldl forgetSession d).identityOf? id = if id ∈ ids then none else d.identityOf? id := by
  induction ids generalizing d with
  | nil => rfl
  | cons first rest ih =>
    rw [List.foldl_cons, ih]
    by_cases hid : id = first
    · subst hid
      simp
    · simp [hid, identityOf?_forgetSession_of_ne]

end PeerDirectory

namespace SessionRegistry

open Function

variable {α β : Type} {r r' : SessionRegistry} {now : Instant} {held bound : List UInt32}

/-! ### Agreement -/

/-- The directory of a registry binds each session to the peer that the session itself is bound
to. -/
def Agrees (r : SessionRegistry) : Prop :=
  ∀ id, r.directory.identityOf? id = (r.holdings id).bind Session.boundTo?

theorem Agrees.empty (keypair : Keypair) (ids : IdPool) (tape : Tape) :
    (SessionRegistry.empty keypair ids tape).Agrees := fun _ => rfl

/-- What has left no trace keeps the agreement. -/
theorem Agrees.of_traceless (h : r.Agrees) (hsame : Traceless r r') : r'.Agrees := by
  intro id
  rw [hsame.holdings, hsame.directory]
  exact h id

/-- The agreement is to be looked at only where something may have changed. -/
theorem Agrees.of_confined (h : r.Agrees) (hsame : Confined held bound r r')
    (hat : ∀ id, id ∈ held ∨ id ∈ bound →
      r'.directory.identityOf? id = (r'.holdings id).bind Session.boundTo?) : r'.Agrees := by
  intro id
  by_cases hid : id ∈ held ∨ id ∈ bound
  · exact hat id hid
  · rw [not_or] at hid
    rw [hsame.binding id hid.2, hsame.holdings_eq hid.1]
    exact h id

/-- A session that is stored established, and bound to its peer right behind that. -/
theorem Agrees.establish (h : r.Agrees) (id : UInt32) {x : Session}
    (hestablished : x.isEstablished = true) :
    Agrees { r with
      sessions := r.sessions.insert id x
      directory := r.directory.bindSession id x.peer } := by
  intro id'
  show (r.directory.bindSession id x.peer).identityOf? id' =
    (holdings { r with sessions := r.sessions.insert id x } id').bind Session.boundTo?
  rw [holdings_insert]
  by_cases hid : id' = id
  · subst hid
    rw [update_self, PeerDirectory.identityOf?_bindSession_self]
    exact (Session.boundTo?_of_established (x := x.untimed) hestablished).symm
  · rw [update_of_ne hid, PeerDirectory.identityOf?_bindSession_of_ne _ _ hid]
    exact h id'

/-! ### Actions that keep the agreement -/

/-- Whatever an action comes to, directory and sessions agree after it if they did before. -/
def Action.Keeps (x : Action α) : Prop :=
  ∀ r : SessionRegistry, r.Agrees → (x.result r).2.Agrees

open SessionRegistry.Action (Leaves Grants Keeps)

namespace Action.Keeps

theorem of_leaves {x : Action α} (h : Leaves x [] []) : Keeps x :=
  fun r hr => hr.of_traceless (h r).traceless

/-- An action behind another, which is known by what it gives. -/
theorem bind {x : Action α} {f : α → Action β} {P : α → Prop} (hx : Keeps x) (hgives : Grants x P)
    (hf : ∀ a, P a → Keeps (f a)) : Keeps (x >>= f) := by
  intro r hr
  have hafter := hx r hr
  rw [result_bind]
  split
  · next a r' heq =>
    rw [heq] at hafter
    exact hf a (hgives r a (by rw [heq])) r' hafter
  · next e r' heq =>
    rw [heq] at hafter
    exact hafter

/-- An action behind one that touches neither sessions nor bindings. -/
theorem after {x : Action α} {f : α → Action β} (hx : Leaves x [] []) (hf : ∀ a, Keeps (f a)) :
    Keeps (x >>= f) :=
  (of_leaves hx).bind (.any x) fun a _ => hf a

end Action.Keeps

/-! ### Operations -/

/-- A start stores a session that is not established, or nothing is left of what it stored. -/
theorem start_keeps (now : Instant) (hostkey : Bytes) : Keeps (start now hostkey) := by
  intro r hr
  obtain hsame | ⟨id, hfree, hsame⟩ := start_leaves now hostkey r
  · exact hr.of_traceless hsame.traceless
  obtain ⟨-, hstart⟩ := start_ensures now hostkey r rfl rfl
  apply hr.of_confined hsame
  rintro id' (hid | hid)
  · obtain rfl := List.mem_singleton.1 hid
    rw [hsame.directory rfl, hr, get?_eq_none_iff.1 hfree]
    obtain ⟨new, _, _, x, -, -, hholdings, hstarted⟩ | ⟨-, hholdings⟩ := hstart
    · have hunbound : x.boundTo? = none := by
        simp [Session.boundTo?, isEstablished_eq, hstarted.handshake_eq]
      rw [hholdings, update_apply]
      split
      · exact hunbound.symm
      · rw [get?_eq_none_iff.1 hfree]
    · rw [hholdings, get?_eq_none_iff.1 hfree]
  · cases hid

theorem enroll_keeps (now : Instant) (key : Rsa.PublicKey) (peer : Identity)
    (sharedKey remoteMac : Bytes) : Keeps (enroll now key peer sharedKey remoteMac) := by
  apply Keeps.after (draw_leaves keyLength)
  intro localMac
  apply Keeps.after (sealFor_leaves key localMac)
  intro block
  apply Keeps.after allocate_leaves
  intro id
  exact fun r hr => hr.establish id rfl

theorem accept_keeps (now : Instant) (hostkey keyBlock macBlock : Bytes) :
    Keeps (accept now hostkey keyBlock macBlock) := by
  apply Keeps.after (presented_leaves hostkey)
  intro key
  apply Keeps.after (openBlock_leaves keyBlock)
  intro sharedKey
  apply Keeps.after (openBlock_leaves macBlock)
  intro remoteMac
  split
  · exact enroll_keeps now key _ sharedKey remoteMac
  · exact .of_leaves (.throw _)

/-- The session that a second handshake fits is established by it. -/
theorem advance_receiveHandshake2_grants (id : UInt32) (x : Session) :
    Grants (advance id x .receiveHandshake2) (·.isEstablished = true) := by
  intro r y hy
  obtain ⟨-, ⟨state, hstate, hres⟩ | ⟨⟨e, he⟩, -⟩, -⟩ :=
    advance_cases id x .receiveHandshake2 r rfl rfl
  · obtain rfl := Except.ok.inj (hy.symm.trans hres)
    obtain ⟨-, rfl⟩ := target_receiveHandshake2.1 hstate
    rfl
  · exact (ok_ne_error hy he).elim

theorem confirm_keeps (now : Instant) (id : UInt32) (block : Bytes) :
    Keeps (confirm now id block) := by
  have hconfirm : confirm now id block = (do
      checkConfirm id
      let remoteMac ← openBlock block
      let x ← lookup id
      let y ← advance id x .receiveHandshake2
      store id { y with remoteMac? := some remoteMac, lastActivity := now }
      bindSession id y.peer) := by
    simp only [confirm, commitConfirm, bind_assoc, pure_bind]
  rw [hconfirm]
  apply Keeps.after
  · apply (lookup_leaves id).bind
    intro x
    apply (advance_leaves id x _).bind
    intro _
    exact .pure _
  intro _
  apply Keeps.after (openBlock_leaves block)
  intro remoteMac
  apply Keeps.after (lookup_leaves id)
  intro x
  apply Keeps.bind (.of_leaves (advance_leaves id x _)) (advance_receiveHandshake2_grants id x)
  intro y hestablished
  exact fun r hr => hr.establish id hestablished

theorem layerEncrypt_traceless (now : Instant) (ids : List UInt32) (payload : Bytes)
    (r : SessionRegistry) : Traceless r ((layerEncrypt now ids payload).result r).2 := by
  have hsame : Confined ids [] r ((layerEncrypt now ids payload).result r).2 :=
    layerEncrypt_leaves payload (List.Subset.refl ids) r
  exact ⟨(layerEncrypt_ensures now ids payload r rfl rfl).2.2, hsame.directory rfl, hsame.setting⟩

theorem layerDecrypt_traceless (now : Instant) (ids : List UInt32) (blob : Bytes)
    (r : SessionRegistry) : Traceless r ((layerDecrypt now ids blob).result r).2 := by
  have hsame : Confined ids [] r ((layerDecrypt now ids blob).result r).2 :=
    layerDecrypt_leaves blob (List.Subset.refl ids) r
  exact ⟨holdings_layerDecrypt now ids blob, hsame.directory rfl, hsame.setting⟩

theorem Agrees.close (h : r.Agrees) (id : UInt32) : (r.close id).Agrees := by
  apply h.of_confined (close_leaves id r)
  rintro id' hid
  obtain rfl : id' = id := by simpa using hid
  rw [(holdings_close r id').2, update_self]
  unfold SessionRegistry.close contains
  split
  · exact PeerDirectory.identityOf?_forgetSession_self _ id'
  · next habsent =>
    rw [contains_eq, Bool.not_eq_true, Option.isSome_eq_false_iff, Option.isNone_iff_eq_none]
      at habsent
    rw [h, habsent]

theorem mem_idle_iff (r : SessionRegistry) (now : Instant) (limit : Duration) (id : UInt32) :
    id ∈ r.idle now limit ↔ ∃ x, r.sessions.get? id = some x ∧ isIdle now limit x = true := by
  rw [idle, Table.mem_keys_iff, Table.contains, Table.get?_filter]
  cases r.sessions.get? id with
  | none => simp
  | some x => simp [Option.filter]

/-- An expiry drops the idle sessions and no others. -/
theorem holdings_expire_eq (r : SessionRegistry) (now : Instant) (limit : Duration) (id : UInt32) :
    (r.expire now limit).holdings id =
      if id ∈ r.idle now limit then none else r.holdings id := by
  simp only [mem_idle_iff, holdings, expire, Table.get?_filter]
  cases r.sessions.get? id with
  | none => simp
  | some x =>
    cases hidle : isIdle now limit x <;> simp [Option.filter, hidle]

theorem Agrees.expire (h : r.Agrees) (now : Instant) (limit : Duration) :
    (r.expire now limit).Agrees := by
  intro id
  rw [holdings_expire_eq]
  refine (PeerDirectory.identityOf?_foldl_forgetSession _ _ id).trans ?_
  split
  · rfl
  · exact h id

/-- Every operation keeps the agreement, whether it succeeds or fails. -/
theorem Operation.agrees (h : r.Agrees) (now : Instant) (op : Operation) :
    (op.deed now r).after.Agrees := by
  cases op with
  | start hostkey =>
    rw [start_after]
    exact start_keeps now hostkey r h
  | accept hostkey keyBlock macBlock =>
    rw [Operation.deed, Operation.run, snd_outcome]
    exact accept_keeps now hostkey keyBlock macBlock r h
  | confirm session block =>
    rw [confirm_after]
    exact confirm_keeps now session block r h
  | close session => exact h.close session
  | expire limit => exact h.expire now limit
  | encrypt sessions payload =>
    rw [Operation.deed, Operation.run, snd_outcome]
    exact h.of_traceless (layerEncrypt_traceless now sessions payload r)
  | decrypt sessions payload =>
    rw [Operation.deed, Operation.run, snd_outcome]
    exact h.of_traceless (layerDecrypt_traceless now sessions payload r)

/-! ### Runs -/

theorem Ran.agrees {r₀ : SessionRegistry} {deeds : List Deed} (hran : Ran r₀ deeds r)
    (h : r₀.Agrees) : r.Agrees := by
  induction hran with
  | start => exact h
  | step _ now op ih => exact Operation.agrees ih now op

/-- What a directory tells of a registry's sessions. -/
structure Tells (d : PeerDirectory) (sessions : Table UInt32 Session) : Prop where
  /-- A session is bound to a peer exactly if it is established with that peer. -/
  bound_iff : ∀ id peer, d.identityOf? id = some peer ↔
    ∃ x, sessions.get? id = some x ∧ x.isEstablished = true ∧ x.peer = peer
  /-- There are as many bindings as established sessions. -/
  count : d.sessionCount = (sessions.filter fun _ x => x.isEstablished).size
  /-- A session that has gone, or that waits for its confirmation, is bound to nobody. -/
  unbound : ∀ id, (∀ x, sessions.get? id = some x → x.isEstablished = false) →
    d.identityOf? id = none

theorem Agrees.identityOf? (h : r.Agrees) (id : UInt32) :
    r.directory.identityOf? id = (r.sessions.get? id).bind Session.boundTo? := by
  rw [h id, holdings]
  cases r.sessions.get? id <;> rfl

theorem Agrees.tells (h : r.Agrees) : Tells r.directory r.sessions where
  bound_iff id peer := by
    simp only [h.identityOf?, Option.bind_eq_some_iff, Session.boundTo?_eq_some_iff]
  count := by
    apply Table.size_eq_of_contains
    intro id
    have hbound := h.identityOf? id
    rw [PeerDirectory.identityOf?] at hbound
    rw [Table.contains, Table.contains, hbound, Table.get?_filter]
    cases r.sessions.get? id with
    | none => rfl
    | some x => cases hx : x.isEstablished <;> simp [Session.boundTo?, Option.filter, hx]
  unbound id hnone := by
    rw [h.identityOf?, Option.bind_eq_none_iff]
    intro x hx
    simp [Session.boundTo?, hnone x hx]

/-- A registry that has started without sessions runs any operations, one after the other and each
to its end, whether they succeed or fail and however its identifiers repeat. Its directory then
binds a session to a peer exactly if the registry holds that session established with that peer. -/
theorem directory_tells {keypair : Keypair} {ids : IdPool} {tape : Tape} {deeds : List Deed}
    (hran : Ran (.empty keypair ids tape) deeds r) : Tells r.directory r.sessions :=
  (hran.agrees (.empty keypair ids tape)).tells

/-- A registry accepts a session, which is then bound to its peer, and closes it, which leaves the
identifier unbound. -/
theorem directory_tells_closed :
    ∃ deeds r s, Ran (twoRegistries false) deeds r ∧
      r.directory.identityOf? s = some (.ofHostkey (twoRegistries true).keypair.hostkey) ∧
      Ran (twoRegistries false) ((Operation.close s).deed 0 r :: deeds) (r.close s) ∧
      (r.close s).directory.identityOf? s = none := by
  have hfit := twoRegistries_fit false
  obtain ⟨key, block, hkey, hblock⟩ := @exists_seals _ hfit madeUpKey rfl
  have hopens := hfit.inverts key _ _ hkey hblock
  have hacceptable : Acceptable (twoRegistries false).setting
      (twoRegistries true).keypair.hostkey block block :=
    ⟨(twoRegistries_fit true).taken, ⟨_, hopens, by decide⟩, _, hopens⟩
  obtain ⟨⟨s, back⟩, hok⟩ := accept_ok 0 hacceptable (spare_twoRegistries false)
  obtain ⟨-, haccept⟩ := accept_ensures 0 (twoRegistries true).keypair.hostkey block block
    (twoRegistries false) rfl rfl
  have hran := (@Ran.start (twoRegistries false)).step 0
    (.accept (twoRegistries true).keypair.hostkey block block)
  have hafter : ((Operation.accept (twoRegistries true).keypair.hostkey block block).deed 0
      (twoRegistries false)).after =
        ((accept 0 (twoRegistries true).keypair.hostkey block block).result
          (twoRegistries false)).2 := snd_outcome _ _ _
  rw [hafter] at hran
  generalize (accept 0 (twoRegistries true).keypair.hostkey block block).result
    (twoRegistries false) = run at hok haccept hran
  obtain ⟨_, r⟩ := run
  obtain rfl : _ = Except.ok (s, back) := hok
  obtain ⟨_, _, y, ⟨⟩, -, hholdings, haccepted⟩ | ⟨⟨_, ⟨⟩⟩, -⟩ := haccept
  have hy : r.holdings s = some y := by rw [hholdings, update_self]
  obtain ⟨x, hx, rfl⟩ := Option.map_eq_some_iff.1 hy
  have hclosed := hran.step 0 (.close s)
  refine ⟨_, r, s, hran, ?_, hclosed, ?_⟩
  · refine ((directory_tells hran).bound_iff s _).2 ⟨x, hx, ?_, haccepted.peer_eq⟩
    exact decide_eq_true (congrArg Session.Handshake.state haccepted.handshake_eq)
  · apply (directory_tells hclosed).unbound s
    intro x' hx'
    have hnone : (r.close s).sessions.get? s = none := by
      rw [get?_eq_none_iff, (holdings_close r s).2, update_self]
    cases hnone.symm.trans hx'

end SessionRegistry

end OnionTunnel
