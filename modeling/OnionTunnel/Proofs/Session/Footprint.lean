import OnionTunnel.Proofs.Session.Service

/-!
# What session requests leave alone

A request changes the sessions that it names, or the one that it starts, and the bindings that it
records or forgets. All others stay exactly as they were, with the moments of their last activity.
-/

namespace OnionTunnel.SessionRegistry

variable {α β : Type} {held bound : List UInt32} {r r' r'' : SessionRegistry}

/-- A registry is as before but for some sessions and some bindings. -/
structure SameBut (held bound : List UInt32) (r r' : SessionRegistry) : Prop where
  session : ∀ id, id ∉ held → r'.sessions.get? id = r.sessions.get? id
  binding : ∀ id, id ∉ bound → r'.directory.identityOf? id = r.directory.identityOf? id

theorem SameBut.refl (held bound : List UInt32) (r : SessionRegistry) : SameBut held bound r r :=
  ⟨fun _ _ => rfl, fun _ _ => rfl⟩

theorem SameBut.trans (h : SameBut held bound r r') (h' : SameBut held bound r' r'') :
    SameBut held bound r r'' where
  session id hid := (h'.session id hid).trans (h.session id hid)
  binding id hid := (h'.binding id hid).trans (h.binding id hid)

theorem SameBut.mono {held' bound' : List UInt32} (h : SameBut held bound r r')
    (hheld : held ⊆ held') (hbound : bound ⊆ bound') : SameBut held' bound' r r' where
  session id hid := h.session id fun hmem => hid (hheld hmem)
  binding id hid := h.binding id fun hmem => hid (hbound hmem)

theorem SameBut.holdings_eq (h : SameBut held bound r r') {id : UInt32} (hid : id ∉ held) :
    r'.holdings id = r.holdings id := by
  rw [holdings, holdings, h.session id hid]

theorem get?_eq_none_iff {id : UInt32} : r.sessions.get? id = none ↔ r.holdings id = none :=
  Option.map_eq_none_iff.symm

/-- What a session operation can have changed: some sessions, some bindings, and how far the
identifiers and the random bytes are used up. -/
structure Confined (held bound : List UInt32) (r r' : SessionRegistry) : Prop
    extends SameBut held bound r r' where
  directory : bound = [] → r'.directory = r.directory
  setting : r'.setting = r.setting

theorem Confined.refl (held bound : List UInt32) (r : SessionRegistry) : Confined held bound r r :=
  ⟨.refl held bound r, fun _ => rfl, rfl⟩

theorem Confined.trans (h : Confined held bound r r') (h' : Confined held bound r' r'') :
    Confined held bound r r'' where
  toSameBut := h.toSameBut.trans h'.toSameBut
  directory hbound := (h'.directory hbound).trans (h.directory hbound)
  setting := h'.setting.trans h.setting

theorem Confined.mono {held' bound' : List UInt32} (h : Confined held bound r r')
    (hheld : held ⊆ held') (hbound : bound ⊆ bound') : Confined held' bound' r r' where
  toSameBut := h.toSameBut.mono hheld hbound
  directory hnone := h.directory (List.subset_nil.1 (hnone ▸ hbound))
  setting := h.setting

/-- A session that came and went is no change. -/
theorem Confined.of_holdings {id : UInt32} (h : Confined [id] bound r r')
    (hfree : r.sessions.get? id = none) (hkept : r'.holdings = r.holdings) :
    Confined [] bound r r' := by
  refine { h with session := ?_ }
  intro id' _
  by_cases heq : id' ∈ [id]
  · rw [List.mem_singleton.1 heq, hfree, get?_eq_none_iff, hkept, ← get?_eq_none_iff]
    exact hfree
  · exact h.session id' heq

/-- Whatever an action comes to, it changes no more than some sessions and some bindings. -/
def Action.Leaves (x : Action α) (held bound : List UInt32) : Prop :=
  ∀ r, Confined held bound r (x.result r).2

/-- An action that leaves all but a few alone, after one that did so. -/
theorem Confined.bind {x : Action α} {f : α → Action β}
    (hx : Confined held bound r (x.result r).2) (hf : ∀ a, (f a).Leaves held bound) :
    Confined held bound r ((x >>= f).result r).2 := by
  rw [result_bind]
  split
  · next a r' heq =>
    rw [heq] at hx
    exact hx.trans (hf a r')
  · next e r' heq =>
    rw [heq] at hx
    exact hx

namespace Action.Leaves

theorem pure (a : α) : Leaves (Pure.pure a : Action α) held bound :=
  fun r => .refl held bound r

theorem throw (e : SessionError) : Leaves (throw e : Action α) held bound :=
  fun r => .refl held bound r

theorem get : Leaves (get : Action SessionRegistry) held bound := fun r => .refl held bound r

theorem bind {x : Action α} {f : α → Action β} (hx : Leaves x held bound)
    (hf : ∀ a, Leaves (f a) held bound) : Leaves (x >>= f) held bound :=
  fun r => (hx r).bind hf

/-- What would come after a failure is not reached. -/
theorem throw_bind (e : SessionError) (f : α → Action β) :
    Leaves ((MonadExcept.throw e : Action α) >>= f) held bound :=
  fun r => .refl held bound r

theorem tryCatch {x : Action α} {handler : SessionError → Action α} (hx : Leaves x held bound)
    (hf : ∀ e, Leaves (handler e) held bound) :
    Leaves (tryCatch x handler : Action α) held bound := by
  intro r
  have hfirst := hx r
  rw [result_tryCatch]
  split
  · next a r' heq =>
    rw [heq] at hfirst
    exact hfirst
  · next e r' heq =>
    rw [heq] at hfirst
    exact hfirst.trans (hf e r')

theorem mapM {γ : Type} {f : γ → Action α} {cs : List γ} (hf : ∀ c ∈ cs, Leaves (f c) held bound) :
    Leaves (cs.mapM f) held bound := by
  induction cs with
  | nil => exact pure []
  | cons c cs ih =>
      rw [List.mapM_cons]
      apply bind (hf c List.mem_cons_self)
      intro a
      apply bind (ih fun c' hc' => hf c' (List.mem_cons_of_mem c hc'))
      intro as
      exact pure (a :: as)

end Action.Leaves

open SessionRegistry.Action (Leaves)

/-! ### Steps -/

section Steps
variable {now : Instant} {id : UInt32}

theorem draw_leaves (n : Nat) : Leaves (draw n) held bound :=
  fun _ => ⟨⟨fun _ _ => rfl, fun _ _ => rfl⟩, fun _ => rfl, rfl⟩

theorem drawNonZero_leaves (n : Nat) : Leaves (drawNonZero n) held bound :=
  fun _ => ⟨⟨fun _ _ => rfl, fun _ _ => rfl⟩, fun _ => rfl, rfl⟩

theorem allocate_leaves : Leaves allocate held bound := by
  intro r
  obtain ⟨hset, -⟩ := allocate_ensures r rfl rfl
  rw [allocate_result] at hset ⊢
  exact ⟨⟨fun _ _ => rfl, fun _ _ => rfl⟩, fun _ => rfl, hset⟩

theorem presented_leaves (hostkey : Bytes) : Leaves (presented hostkey) held bound := by
  unfold presented
  split
  · exact .pure _
  · exact .throw _

theorem lookup_leaves (id : UInt32) : Leaves (lookup id) held bound := by
  apply Leaves.get.bind
  intro r
  split
  · exact .pure _
  · exact .throw _

theorem advance_leaves (id : UInt32) (s : Session) (event : Session.Event) :
    Leaves (advance id s event) held bound := by
  unfold advance
  split
  · exact .pure _
  · exact .throw _

theorem sealFor_leaves (key : Rsa.PublicKey) (message : Bytes) :
    Leaves (sealFor key message) held bound := by
  apply (drawNonZero_leaves _).bind
  intro filler
  split
  · exact .pure _
  · exact .throw _

theorem openBlock_leaves (block : Bytes) : Leaves (openBlock block) held bound := by
  apply Leaves.get.bind
  intro r
  split
  · exact .pure _
  · exact .throw _

theorem store_leaves (s : Session) (hid : id ∈ held) : Leaves (store id s) held bound := by
  intro r
  refine ⟨⟨?_, ?_⟩, ?_, ?_⟩
  · intro id' hid'
    exact Table.get?_insert_of_ne _ _ fun h => hid' (h ▸ hid)
  · intro id' _
    rfl
  · intro _
    rfl
  · rfl

theorem abandon_leaves (hid : id ∈ held) : Leaves (abandon id) held bound := by
  intro r
  refine ⟨⟨?_, ?_⟩, ?_, ?_⟩
  · intro id' hid'
    exact Table.get?_erase_of_ne _ fun h => hid' (h ▸ hid)
  · intro id' _
    rfl
  · intro _
    rfl
  · rfl

theorem bindSession_leaves (peer : Identity) (hid : id ∈ bound) :
    Leaves (bindSession id peer) held bound := by
  intro r
  refine ⟨⟨?_, ?_⟩, ?_, ?_⟩
  · intro id' _
    rfl
  · intro id' hid'
    exact Table.get?_insert_of_ne _ _ fun h => hid' (h ▸ hid)
  · rintro rfl
    cases hid
  · rfl

theorem finishStart_leaves (hid : id ∈ held) : Leaves (finishStart now id) held bound := by
  apply (lookup_leaves id).bind
  intro s
  apply (advance_leaves id s _).bind
  intro s'
  exact store_leaves _ hid

theorem endStart_leaves (o : Opening) (hid : o.session ∈ held) :
    Leaves (endStart now o) held bound := by
  apply Leaves.bind
  · apply Leaves.tryCatch
    · apply (sealFor_leaves _ _).bind
      intro keyBlock
      apply (sealFor_leaves _ _).bind
      intro macBlock
      exact .pure _
    · intro e
      apply (abandon_leaves hid).bind
      intro _
      exact .throw e
  · intro blocks
    apply (finishStart_leaves hid).bind
    intro _
    exact .pure _

/-- The first part of a start stores one session, under an identifier that no session had. -/
theorem beginStart_leaves (now : Instant) (hostkey : Bytes) (r : SessionRegistry) :
    match (beginStart now hostkey).result r with
    | (.ok o, r') => r.sessions.get? o.session = none ∧ Confined [o.session] [] r r'
    | (.error _, r') => Confined [] [] r r' := by
  cases hkey : Hostkey.parse hostkey with
  | error e =>
    simp only [beginStart, presented, hkey]
    exact .refl _ _ r
  | ok key =>
    obtain ⟨ids, hdraw, hattempts, ⟨id, hid, -, hfree⟩ | ⟨⟨e, he⟩, -⟩⟩ :=
      r.ids.allocate_cases r.sessions.contains
    · simp only [beginStart, presented, hkey, draw, reserve, store, result_bind, result_pure,
        result_modifyGet, result_modify, allocate_result, hid]
      rw [Table.contains, Option.isSome_eq_false_iff, Option.isNone_iff_eq_none] at hfree
      refine ⟨hfree, ⟨?_, fun _ _ => rfl⟩, fun _ => rfl, ?_⟩
      · intro id' hid'
        exact Table.get?_insert_of_ne _ _ fun h => hid' (h ▸ List.mem_cons_self)
      · simp only [setting, Tape.draw, hdraw, hattempts]
    · simp only [beginStart, presented, hkey, draw, reserve, result_bind, result_pure,
        result_modifyGet, allocate_result, he, Except.mapError]
      refine ⟨⟨fun _ _ => rfl, fun _ _ => rfl⟩, fun _ => rfl, ?_⟩
      simp only [setting, Tape.draw, hdraw, hattempts]

/-- A start changes no session that was there, and no binding. -/
theorem start_leaves (now : Instant) (hostkey : Bytes) (r : SessionRegistry) :
    Confined [] [] r ((start now hostkey).result r).2 ∨
    ∃ id, r.sessions.get? id = none ∧ Confined [id] [] r ((start now hostkey).result r).2 := by
  have hbegun := beginStart_leaves now hostkey r
  rw [start_eq, result_bind]
  split
  · next o r' heq =>
    rw [heq] at hbegun
    exact .inr ⟨o.session, hbegun.1, hbegun.2.trans (endStart_leaves o List.mem_cons_self r')⟩
  · next e r' heq =>
    rw [heq] at hbegun
    exact .inl hbegun

theorem confirm_leaves (block : Bytes) (hheld : id ∈ held) (hbound : id ∈ bound) :
    Leaves (confirm now id block) held bound := by
  apply Leaves.bind
  · apply (lookup_leaves id).bind
    intro s
    apply (advance_leaves id s _).bind
    intro _
    exact .pure _
  · intro _
    apply (openBlock_leaves block).bind
    intro mac
    apply Leaves.bind
    · apply (lookup_leaves id).bind
      intro s
      apply (advance_leaves id s _).bind
      intro s'
      apply (store_leaves _ hheld).bind
      intro _
      exact .pure _
    · intro peer
      exact bindSession_leaves peer hbound

theorem layer_leaves (macKey? : Session → Option Bytes) (hid : id ∈ held) :
    Leaves (layer now macKey? id) held bound := by
  apply (lookup_leaves id).bind
  intro s
  dsimp only
  split
  · split
    · exact .throw _
    · apply (store_leaves _ hid).bind
      intro _
      exact .pure _
  · exact .throw_bind _ _

theorem wrapAll_leaves (ls : List Layer) (data : Bytes) : Leaves (wrapAll ls data) held bound := by
  induction ls generalizing data with
  | nil => exact .pure data
  | cons l ls ih =>
      apply (draw_leaves _).bind
      intro vector
      split
      · exact ih _
      · exact .throw _

theorem layerEncrypt_leaves {ids : List UInt32} (payload : Bytes) (hids : ids ⊆ held) :
    Leaves (layerEncrypt now ids payload) held bound := by
  apply Leaves.bind
  · apply Leaves.mapM
    intro id hid
    exact layer_leaves _ (hids hid)
  · intro ls
    exact wrapAll_leaves ls payload

theorem layerDecrypt_leaves {ids : List UInt32} (payload : Bytes) (hids : ids ⊆ held) :
    Leaves (layerDecrypt now ids payload) held bound := by
  apply Leaves.bind
  · apply Leaves.mapM
    intro id hid
    exact layer_leaves _ (hids hid)
  · intro ls
    split
    · exact .pure _
    · exact .throw _

end Steps

/-! ### Requests -/

section Requests
variable {now : Instant} {id : UInt32}

theorem ofFrame_leaves (x : Except FrameError α) : Leaves (ofFrame x) held bound := by
  cases x with
  | ok a => exact .pure a
  | error e => exact .throw _

theorem fitting_leaves (payload : Bytes) : Leaves (fitting payload) held bound := by
  unfold fitting
  split
  · exact .throw _
  · exact .pure _

/-- The registry after a request is the one that the request's action ends with. -/
theorem handle_snd (m : Message) (r : SessionRegistry) :
    (r.handle now m).2 = ((dispatch now m).result r).2 := by
  rw [handle_eq]
  split
  · next heq => rw [heq]
  · next heq => rw [heq]

/-- What a request's action leaves alone, the answer leaves alone. -/
theorem handle_leaves {m : Message} (h : Leaves (dispatch now m) held bound)
    (r : SessionRegistry) : Confined held bound r (r.handle now m).2 := by
  rw [handle_snd]
  exact h r

/-- A request for a session starts one under an identifier that no session had, or is declined and
nothing is left of it. -/
theorem handle_sessionStart (now : Instant) (hostkey : Bytes) (r : SessionRegistry) :
    (∃ id handshake x, (r.handle now (.sessionStart hostkey)).1 =
        some (.sessionHandshake1 id handshake) ∧ r.sessions.get? id = none ∧
      Confined [id] [] r (r.handle now (.sessionStart hostkey)).2 ∧
      (r.handle now (.sessionStart hostkey)).2.holdings id = some x ∧
      Offered (Faithful r now hostkey) hostkey x handshake) ∨
    (r.handle now (.sessionStart hostkey)).1 = some .sessionDeclined ∧
      Confined [] [] r (r.handle now (.sessionStart hostkey)).2 := by
  have hrest : ∀ {held bound : List UInt32}, Confined held bound r ((start now hostkey).result r).2 →
      Confined held bound r (r.handle now (.sessionStart hostkey)).2 := by
    intro held bound h
    rw [handle_snd]
    apply h.bind
    intro a
    apply (ofFrame_leaves _).bind
    intro _
    exact .pure _
  obtain ⟨id, handshake, x, hreply, hfree, hheld, hoffered⟩ | ⟨hreply, -, hkept⟩ :=
    (replies_sessionStart r hostkey).2
  · have hid : (r.handle now (.sessionStart hostkey)).2.holdings id = some x := by
      rw [hheld, Function.update_self]
    refine .inl ⟨id, handshake, x, hreply, get?_eq_none_iff.2 hfree, ?_, hid, hoffered⟩
    obtain h | ⟨id', -, h⟩ := start_leaves now hostkey r
    · exact (hrest h).mono (List.nil_subset _) (List.Subset.refl _)
    · -- The session that is there now is the one that may have changed.
      by_cases heq : id ∈ [id']
      · rw [List.mem_singleton.1 heq]
        exact hrest h
      · rw [(hrest h).holdings_eq heq, hfree] at hid
        cases hid
  · refine .inr ⟨hreply, ?_⟩
    obtain h | ⟨id', hfree, h⟩ := start_leaves now hostkey r
    · exact hrest h
    · exact (hrest h).of_holdings hfree hkept

theorem handle_incomingHandshake2_leaves (now : Instant) (id : UInt32) (handshake : Bytes)
    (r : SessionRegistry) :
    Confined [id] [id] r (r.handle now (.incomingHandshake2 id handshake)).2 := by
  apply handle_leaves
  apply (ofFrame_leaves _).bind
  intro block
  apply (confirm_leaves block List.mem_cons_self List.mem_cons_self).bind
  intro _
  exact .pure _

theorem handle_layerEncrypt_leaves (now : Instant) (request : UInt16) (ids : List UInt32)
    (payload : Bytes) (r : SessionRegistry) :
    Confined ids [] r (r.handle now (.layerEncrypt request ids payload)).2 := by
  apply handle_leaves
  apply (layerEncrypt_leaves payload (List.Subset.refl ids)).bind
  intro blob
  apply (fitting_leaves blob).bind
  intro _
  exact .pure _

theorem handle_layerDecrypt_leaves (now : Instant) (request : UInt16) (ids : List UInt32)
    (payload : Bytes) (r : SessionRegistry) :
    Confined ids [] r (r.handle now (.layerDecrypt request ids payload)).2 := by
  apply handle_leaves
  apply (layerDecrypt_leaves payload (List.Subset.refl ids)).bind
  intro text
  apply (fitting_leaves text).bind
  intro _
  exact .pure _

theorem close_leaves (id : UInt32) (r : SessionRegistry) : Confined [id] [id] r (r.close id) := by
  unfold close
  split
  · refine ⟨⟨?_, ?_⟩, ?_, ?_⟩
    · intro id' hid'
      exact Table.get?_erase_of_ne _ fun h => hid' (h ▸ List.mem_cons_self)
    · intro id' hid'
      exact Table.get?_erase_of_ne _ fun h => hid' (h ▸ List.mem_cons_self)
    · rintro ⟨⟩
    · rfl
  · exact .refl _ _ r

end Requests

end OnionTunnel.SessionRegistry
