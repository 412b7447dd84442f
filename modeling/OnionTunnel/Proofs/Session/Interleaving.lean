import OnionTunnel.Proofs.Session.Layers

/-!
# Interleaved operations

Starting a session and confirming one leave the table alone while they seal and open blocks, and
other operations may come in between. So an operation is one part or two, and what any number of
registries do is a sequence of parts of theirs in whatever order. `Runs` assumes nothing of the
arguments: blocks may come late, repeatedly, from elsewhere or never, and a part may be done that
nobody began.

`Change` is all that one part can do to what a registry holds under one identifier.
-/

namespace OnionTunnel.SessionRegistry

open Function

/-! ### Parts of operations -/

/-- A part of an operation that nothing interrupts. -/
inductive Part where
  /-- A start, up to the reservation of its identifier. -/
  | reserve (hostkey : Bytes)
  /-- A start, from sealing its keys on. -/
  | finish (o : Opening)
  | accept (hostkey keyBlock macBlock : Bytes)
  /-- A confirmation, up to the check that it would fit. -/
  | check (session : UInt32)
  /-- A confirmation, from opening its block on. -/
  | commit (session : UInt32) (block : Bytes)
  | close (session : UInt32)
  | expire (limit : Duration)
  | encrypt (sessions : List UInt32) (payload : Bytes)
  | decrypt (sessions : List UInt32) (payload : Bytes)

/-- What a part gives. -/
inductive Outcome where
  | reserved (o : Opening)
  | started (session : UInt32) (keyBlock macBlock : Bytes)
  | accepted (session : UInt32) (block : Bytes)
  | text (text : Bytes)
  | done
  | failed (error : SessionError)

/-- The outcome of an action and the registry after it. -/
def Action.outcome {α : Type} (x : Action α) (f : α → Outcome) (r : SessionRegistry) :
    Outcome × SessionRegistry :=
  match x.result r with
  | (.ok a, r) => (f a, r)
  | (.error e, r) => (.failed e, r)

/-- The outcome of a part and the registry after it. -/
def Part.run (now : Instant) (r : SessionRegistry) : Part → Outcome × SessionRegistry
  | reserve hostkey => (beginStart now hostkey).outcome .reserved r
  | finish o => (endStart now o).outcome (fun s => .started s.1 s.2.1 s.2.2) r
  | accept hostkey keyBlock macBlock =>
    (SessionRegistry.accept now hostkey keyBlock macBlock).outcome (fun s => .accepted s.1 s.2) r
  | check session => (checkConfirm session).outcome (fun _ => .done) r
  | commit session block => (endConfirm now session block).outcome (fun _ => .done) r
  | close session => (.done, r.close session)
  | expire limit => (.done, r.expire now limit)
  | encrypt sessions payload => (layerEncrypt now sessions payload).outcome .text r
  | decrypt sessions payload => (layerDecrypt now sessions payload).outcome .text r

/-- What a part can do to what a registry holds under an identifier. -/
inductive Change (id : UInt32) : Part → Option Session → Option Session → Prop
  | same (part : Part) (o : Option Session) : Change id part o o
  | reserved {hostkey : Bytes} {o : Opening} (hid : o.session = id)
      (hsecret : o.sharedKey.length = keyLength) :
      Change id (.reserve hostkey) none (some (o.reserved hostkey))
  | sent {o : Opening} {x : Session} (hid : o.session = id)
      (hfresh : x.handshake = .fresh .initiator) :
      Change id (.finish o) (some x) (some { x with handshake := ⟨.initiator, .awaitingConfirm⟩ })
  | abandoned {o : Opening} {x : Session} (hid : o.session = id)
      (hsmall : o.key.size < o.sharedKey.length + Rsa.minPadding ∨
        o.key.size < o.localMac.length + Rsa.minPadding) : Change id (.finish o) (some x) none
  | accepted {hostkey keyBlock macBlock : Bytes} {y : Session}
      (hestablished : y.handshake = ⟨.responder, .established⟩)
      (hvalid : Aes.validLength y.sharedKey.length) (hmac : y.remoteMac?.isSome) :
      Change id (.accept hostkey keyBlock macBlock) none (some y)
  | confirmed {block mac : Bytes} {x : Session}
      (hawaits : x.handshake = ⟨.initiator, .awaitingConfirm⟩) :
      Change id (.commit id block) (some x)
        (some { x with handshake := ⟨.initiator, .established⟩, remoteMac? := some mac })
  | closed {x : Session} : Change id (.close id) (some x) none
  | expired {limit : Duration} {x : Session} : Change id (.expire limit) (some x) none

/-- What a part can do to the holdings of a registry. -/
def Changes (part : Part) (v v' : Holdings) : Prop :=
  ∀ id, Change id part (v id) (v' id)

section Steps
variable {v : Holdings}

theorem Changes.refl (part : Part) (v : Holdings) : Changes part v v :=
  fun id => .same part (v id)

theorem Changes.update {part : Part} {id : UInt32} {o : Option Session}
    (h : Change id part (v id) o) : Changes part v (update v id o) := by
  intro id'
  by_cases heq : id' = id
  · subst heq
    rwa [update_self]
  · rw [update_of_ne heq]
    exact .same part _

/-- Erasing what a registry holds under an identifier. -/
theorem Changes.erase {part : Part} {id : UInt32}
    (h : ∀ x, Change id part (some x) none) : Changes part v (Function.update v id none) := by
  apply Changes.update
  cases v id with
  | none => exact .same part none
  | some x => exact h x

theorem holdings_expire (r : SessionRegistry) (now : Instant) (limit : Duration) (id : UInt32) :
    (r.expire now limit).holdings id = r.holdings id ∨ (r.expire now limit).holdings id = none := by
  simp only [holdings, expire, Table.get?_filter]
  cases r.sessions.get? id with
  | none => exact .inl rfl
  | some s =>
    by_cases hidle : isIdle now limit s = true
    · exact .inr (by simp [Option.filter, hidle])
    · exact .inl (by simp [Option.filter, hidle])

theorem snd_outcome {α : Type} (x : Action α) (f : α → Outcome) (r : SessionRegistry) :
    (x.outcome f r).2 = (x.result r).2 := by
  unfold Action.outcome
  split <;> simp [*]

/-- An outcome that is no failure is that of a result. -/
theorem result_of_outcome {α : Type} {x : Action α} {f : α → Outcome} {r : SessionRegistry}
    {o : Outcome} (h : (x.outcome f r).1 = o) (hne : ∀ e, o ≠ .failed e) :
    ∃ a, (x.result r).1 = .ok a ∧ f a = o := by
  unfold Action.outcome at h
  split at h
  · next a r' heq => exact ⟨a, by rw [heq], h⟩
  · next e r' heq => exact (hne e h.symm).elim

theorem outcome_of_result {α : Type} {x : Action α} {f : α → Outcome} {r : SessionRegistry} {a : α}
    (h : (x.result r).1 = .ok a) : (x.outcome f r).1 = f a := by
  unfold Action.outcome
  split <;> simp_all

theorem outcome_of_error {α : Type} {x : Action α} {f : α → Outcome} {r : SessionRegistry}
    {e : SessionError} (h : (x.result r).1 = .error e) : (x.outcome f r).1 = .failed e := by
  unfold Action.outcome
  split <;> simp_all

/-- A part of an action whose holdings change as they may. -/
theorem changes_outcome {α : Type} {x : Action α} {f : α → Outcome} {r : SessionRegistry}
    {part : Part} {Q : Except SessionError α → Holdings → Prop}
    (hx : Ensures r.setting r.holdings x Q)
    (hQ : ∀ res v', Q res v' → Changes part r.holdings v') :
    (x.outcome f r).2.setting = r.setting ∧
      Changes part r.holdings (x.outcome f r).2.holdings := by
  rw [snd_outcome]
  obtain ⟨hset, hres⟩ := hx r rfl rfl
  exact ⟨hset, hQ _ _ hres⟩

/-- A part keeps the setting and changes the holdings as it may. -/
theorem Part.changes (now : Instant) (part : Part) (r : SessionRegistry) :
    (part.run now r).2.setting = r.setting ∧
      Changes part r.holdings (part.run now r).2.holdings := by
  cases part with
  | reserve hostkey =>
    apply changes_outcome (beginStart_ensures now hostkey)
    rintro _ v' (⟨o, -, -, hsecret, -, hfree, rfl⟩ | ⟨-, -, rfl⟩)
    · exact .update (hfree.symm ▸ .reserved rfl hsecret)
    · exact .refl _ _
  | finish o =>
    apply changes_outcome (endStart_ensures now o)
    rintro _ v' (⟨_, _, x, -, -, -, hx, hfresh, rfl⟩ | ⟨-, ⟨-, rfl⟩ | ⟨hsmall, rfl⟩⟩)
    · exact .update (hx.symm ▸ .sent rfl hfresh)
    · exact .refl _ _
    · exact .erase fun x => .abandoned rfl hsmall
  | accept hostkey keyBlock macBlock =>
    apply changes_outcome (accept_ensures now hostkey keyBlock macBlock)
    rintro _ v' (⟨id, _, y, -, hfree, rfl, haccepted⟩ | ⟨-, -, rfl⟩)
    · obtain ⟨mac, -, hmac⟩ := haccepted.openedMac
      exact .update (hfree.symm ▸ .accepted haccepted.handshake_eq haccepted.valid
        (by rw [hmac]; rfl))
    · exact .refl _ _
  | check session =>
    apply changes_outcome (checkConfirm_cases session)
    rintro _ v' ⟨-, rfl⟩
    exact .refl _ _
  | commit session block =>
    apply changes_outcome (endConfirm_ensures now session block)
    rintro _ v' (⟨_, x, mac, -, hx, hawaits, -, rfl⟩ | ⟨-, -, rfl⟩)
    · exact .update (hx.symm ▸ .confirmed hawaits)
    · exact .refl _ _
  | close session =>
    obtain ⟨hset, hholdings⟩ := holdings_close r session
    refine ⟨hset, ?_⟩
    show Changes _ _ (r.close session).holdings
    rw [hholdings]
    exact .erase fun x => .closed
  | expire limit =>
    refine ⟨rfl, fun id => ?_⟩
    show Change id _ _ ((r.expire now limit).holdings id)
    obtain hsame | hnone := holdings_expire r now limit id
    · rw [hsame]
      exact .same _ _
    · rw [hnone]
      cases r.holdings id with
      | none => exact .same _ none
      | some x => exact .expired
  | encrypt sessions payload =>
    apply changes_outcome (layerEncrypt_ensures now sessions payload)
    rintro _ v' ⟨-, rfl⟩
    exact .refl _ _
  | decrypt sessions payload =>
    apply changes_outcome (layerDecrypt_ensures now sessions payload)
    rintro _ v' ⟨-, rfl⟩
    exact .refl _ _

end Steps

/-! ### Runs of several registries -/

/-- A part that one of several registries did, what it gave, and the registry after it. -/
structure Event (ι : Type) where
  node : ι
  part : Part
  outcome : Outcome
  after : SessionRegistry

/-- The ways in which a session goes: it is closed, it expires, or a start that had its identifier
cannot seal its keys. -/
def Event.Drops {ι : Type} (e : Event ι) (id : UInt32) : Prop :=
  e.part = .close id ∨ (∃ limit, e.part = .expire limit ∧ e.after.contains id = false) ∨
    ∃ o, e.part = .finish o ∧ o.session = id ∧
      (o.key.size < o.sharedKey.length + Rsa.minPadding ∨
        o.key.size < o.localMac.length + Rsa.minPadding)

/-- No event of a registry has dropped a session. -/
def Spared {ι : Type} (history : List (Event ι)) (i : ι) (id : UInt32) : Prop :=
  ∀ e ∈ history, e.node = i → ¬ e.Drops id

/-- A session has been there after every event of its registry. -/
def Kept {ι : Type} (history : List (Event ι)) (i : ι) (id : UInt32) : Prop :=
  ∀ e ∈ history, e.node = i → e.after.contains id = true

theorem Kept.of_append {ι : Type} {history later : List (Event ι)} {i : ι} {id : UInt32}
    (h : Kept (later ++ history) i id) : Kept later i id ∧ Kept history i id := by
  constructor
  · intro e he
    exact h e (List.mem_append_left history he)
  · intro e he
    exact h e (List.mem_append_right later he)

section Runs
variable {ι : Type} [DecidableEq ι]

/-- Registries go on to others over a history, newest event first. -/
inductive Runs (w : ι → SessionRegistry) : List (Event ι) → (ι → SessionRegistry) → Prop
  | start : Runs w [] w
  | step {history : List (Event ι)} {w' : ι → SessionRegistry} (hrun : Runs w history w') (i : ι)
      (now : Instant) (part : Part) :
      Runs w (⟨i, part, (part.run now (w' i)).1, (part.run now (w' i)).2⟩ :: history)
        (update w' i (part.run now (w' i)).2)

variable {w w' w'' : ι → SessionRegistry} {history later : List (Event ι)} {i : ι} {id : UInt32}

/-- The run after one more part of a registry. -/
theorem Runs.next (hrun : Runs w history w') {r : SessionRegistry} (hr : w' i = r) (now : Instant)
    (part : Part) :
    Runs w (⟨i, part, (part.run now r).1, (part.run now r).2⟩ :: history)
      (update w' i (part.run now r).2) := by
  subst hr
  exact hrun.step i now part

theorem Runs.split (hrun : Runs w (later ++ history) w'') :
    ∃ w', Runs w history w' ∧ Runs w' later w'' := by
  induction later generalizing w'' with
  | nil => exact ⟨w'', hrun, .start⟩
  | cons e later ih =>
    cases hrun with
    | step hrun i now part =>
      obtain ⟨w₁, hhistory, hlater⟩ := ih hrun
      exact ⟨w₁, hhistory, hlater.step i now part⟩

/-- An event of a history, with the registries before it and after it. -/
theorem Runs.at_event {e : Event ι} (hrun : Runs w (later ++ e :: history) w'') :
    ∃ w' now, Runs w history w' ∧ e.outcome = (e.part.run now (w' e.node)).1 ∧
      e.after = (e.part.run now (w' e.node)).2 ∧ Runs (update w' e.node e.after) later w'' := by
  obtain ⟨w₁, hevent, hlater⟩ := hrun.split
  cases hevent with
  | step hhistory i now part => exact ⟨_, now, hhistory, rfl, rfl, hlater⟩

theorem Runs.setting (hrun : Runs w history w') (i : ι) : (w' i).setting = (w i).setting := by
  induction hrun with
  | start => rfl
  | @step history w' _ j now part ih =>
    by_cases hij : i = j
    · subst hij
      rw [update_self, (part.changes now (w' i)).1, ih]
    · rw [update_of_ne hij, ih]

theorem contains_iff (r : SessionRegistry) (id : UInt32) :
    r.contains id = true ↔ ∃ x, r.holdings id = some x := by
  rw [contains, contains_eq, Option.isSome_iff_exists]

/-- A session that is spared is kept. -/
theorem Runs.kept (hrun : Runs w history w') (hx : (w i).contains id = true)
    (h : Spared history i id) :
    Kept history i id ∧ (w' i).contains id = true := by
  induction hrun with
  | start => exact ⟨fun e he => (List.not_mem_nil he).elim, hx⟩
  | @step history w' _ j now part ih =>
    obtain ⟨hkept, hthere⟩ := ih fun e he => h e (List.mem_cons_of_mem _ he)
    by_cases hij : i = j
    · subst hij
      have hafter : (part.run now (w' i)).2.contains id = true := by
        have hspared := h _ List.mem_cons_self rfl
        obtain ⟨x, hx'⟩ := (contains_iff _ _).1 hthere
        have hchange := (part.changes now (w' i)).2 id
        rw [hx'] at hchange
        by_contra hgone
        have hnone : (part.run now (w' i)).2.holdings id = none := by
          rw [contains, contains_eq] at hgone
          simpa using hgone
        rw [hnone] at hchange
        cases hchange with
        | abandoned hid hsmall => exact hspared (.inr (.inr ⟨_, rfl, hid, hsmall⟩))
        | closed => exact hspared (.inl rfl)
        | expired => exact hspared (.inr (.inl ⟨_, rfl, by simpa using hgone⟩))
      rw [update_self]
      refine ⟨?_, hafter⟩
      intro e he hnode
      obtain rfl | he := List.mem_cons.1 he
      · exact hafter
      · exact hkept e he hnode
    · rw [update_of_ne hij]
      refine ⟨?_, hthere⟩
      intro e he hnode
      obtain rfl | he := List.mem_cons.1 he
      · exact (hij hnode.symm).elim
      · exact hkept e he hnode

/-- What is true of a session and survives every change stays true of it as long as it is kept. -/
theorem Runs.preserves {P : Session → Prop}
    (hP : ∀ part x x', Change id part (some x) (some x') → P x → P x') (hrun : Runs w history w')
    (hkept : Kept history i id) (hx : ∃ x, (w i).holdings id = some x ∧ P x) :
    ∃ x, (w' i).holdings id = some x ∧ P x := by
  induction hrun with
  | start => exact hx
  | @step history w' _ j now part ih =>
    obtain ⟨x, hx', hPx⟩ := ih fun e he => hkept e (List.mem_cons_of_mem _ he)
    by_cases hij : i = j
    · subst hij
      obtain ⟨x', hafter⟩ := (contains_iff _ _).1 (hkept _ List.mem_cons_self rfl)
      have hchange := (part.changes now (w' i)).2 id
      rw [hx', hafter] at hchange
      rw [update_self]
      exact ⟨x', hafter, hP part x x' hchange hPx⟩
    · rw [update_of_ne hij]
      exact ⟨x, hx', hPx⟩

/-- What is true of every new session and survives every change is true of every session. -/
theorem Runs.forall {P : Session → Prop}
    (hP : ∀ id part o x', Change id part o (some x') → (∀ x, o = some x → P x) → P x')
    (hrun : Runs w history w') (hw : ∀ i id x, (w i).holdings id = some x → P x) :
    ∀ i id x, (w' i).holdings id = some x → P x := by
  induction hrun with
  | start => exact hw
  | @step history w' _ j now part ih =>
    intro i id x hx
    by_cases hij : i = j
    · subst hij
      rw [update_self] at hx
      have hchange := (part.changes now (w' i)).2 id
      rw [hx] at hchange
      exact hP id part _ x hchange (ih i id)
    · rw [update_of_ne hij] at hx
      exact ih i id x hx

/-- An established session does not change any more. -/
theorem Change.eq_of_established {part : Part} {x x' : Session}
    (h : Change id part (some x) (some x')) (hx : x.handshake.state = .established) : x' = x := by
  cases h with
  | same => rfl
  | sent _ hfresh => rw [hfresh] at hx; cases hx
  | confirmed hawaits => rw [hawaits] at hx; cases hx

theorem Runs.established {x : Session} (hrun : Runs w history w') (hkept : Kept history i id)
    (hx : (w i).holdings id = some x) (hstate : x.handshake.state = .established) :
    (w' i).holdings id = some x := by
  obtain ⟨x', hx', rfl⟩ := hrun.preserves (P := (· = x))
    (fun part y y' hchange hy => by
      subst hy
      exact hchange.eq_of_established hstate)
    hkept ⟨x, hx, rfl⟩
  exact hx'

/-! ### Sessions that can carry layers -/

/-- A session whose key fits the cipher, with the peer's tag key if it is established. -/
structure Keyed (x : Session) : Prop where
  valid : Aes.validLength x.sharedKey.length
  confirmed : x.handshake.state = .established → x.remoteMac?.isSome

theorem Change.keyed {part : Part} {o : Option Session} {x' : Session}
    (h : Change id part o (some x')) (ho : ∀ x, o = some x → Keyed x) : Keyed x' := by
  cases h with
  | same => exact ho x' rfl
  | reserved _ hsecret =>
    constructor
    · show Aes.validLength _
      rw [Opening.reserved, Session.fresh, hsecret]
      decide
    · intro hstate
      cases hstate
  | @sent o x =>
    constructor
    · exact (ho x rfl).valid
    · intro hstate
      cases hstate
  | accepted _ hvalid hmac => exact ⟨hvalid, fun _ => hmac⟩
  | @confirmed block mac x => exact ⟨(ho x rfl).valid, fun _ => rfl⟩

/-- Registries that start without sessions hold keyed ones only. -/
theorem Runs.keyed (hrun : Runs w history w') (hw : ∀ i id, (w i).holdings id = none) {x : Session}
    (hx : (w' i).holdings id = some x) : Keyed x := by
  refine hrun.forall (fun id part o x' hchange ho => hchange.keyed ho) ?_ i id x hx
  intro i id x hsome
  rw [hw] at hsome
  cases hsome

end Runs

end OnionTunnel.SessionRegistry
