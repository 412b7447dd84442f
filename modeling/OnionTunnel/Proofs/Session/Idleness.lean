import OnionTunnel.Proofs.Session.Bindings
import OnionTunnel.Proofs.Session.LayerFaults

/-!
# Idle sessions

A session that nothing is done for falls idle, and the next expiry drops it. What keeps it is an
operation that succeeds on it; and a layer operation that merely looks it up keeps it too, although
it may fail on a later session of its list or at a peel.

`Quiet` says that a session was last active no later than a moment. A part of an operation that
begins later keeps that, unless it is done for the session or looks it up. Parts of operations may
come in any order, and the moments need not grow.
-/

namespace OnionTunnel.SessionRegistry

open Function
open SessionRegistry.Action (Leaves Grants)

variable {α β : Type} {r r' : SessionRegistry} {now t : Instant} {s : UInt32}

/-- A session was last active no later than a moment, if it is there. -/
def Quiet (s : UInt32) (t : Instant) (r : SessionRegistry) : Prop :=
  ∀ x, r.sessions.get? s = some x → x.lastActivity ≤ t

theorem Quiet.of_sub (h : Quiet s t r)
    (hsub : ∀ x, r'.sessions.get? s = some x → r.sessions.get? s = some x) : Quiet s t r' :=
  fun x hx => h x (hsub x hx)

theorem Quiet.of_sessions (h : Quiet s t r) (hsame : r'.sessions.get? s = r.sessions.get? s) :
    Quiet s t r' :=
  h.of_sub fun _ hx => hsame ▸ hx

/-! ### Actions -/

/-- Whatever an action comes to, it dates a session no later, as long as what it gives passes a
test. -/
def Action.Rests (s : UInt32) (t : Instant) (P : α → Prop) (x : Action α) : Prop :=
  ∀ r, Quiet s t r → (∀ a, (x.result r).1 = .ok a → P a) → Quiet s t (x.result r).2

open SessionRegistry.Action (Rests)

namespace Action.Rests

variable {P : α → Prop}

theorem of_leaves {x : Action α} (h : Leaves x [] []) : Rests s t P x :=
  fun r hr _ => hr.of_sessions ((h r).session s List.not_mem_nil)

/-- An action behind another, which dates the session no later whatever it gives. -/
theorem bind {x : Action β} {f : β → Action α} {Q : β → Prop} (hx : Rests s t (fun _ => True) x)
    (hgives : Grants x Q) (hf : ∀ b, Q b → Rests s t P (f b)) : Rests s t P (x >>= f) := by
  intro r hr hP
  have hfirst := hx r hr fun _ _ => trivial
  rw [result_bind] at hP ⊢
  cases heq : x.result r with
  | mk res r' =>
    rw [heq] at hP hfirst
    cases res with
    | ok b => exact hf b (hgives r b (by rw [heq])) r' hfirst hP
    | error e => exact hfirst

/-- An action behind one that touches no sessions. -/
theorem after {x : Action β} {f : β → Action α} (hx : Leaves x [] []) (hf : ∀ b, Rests s t P (f b)) :
    Rests s t P (x >>= f) :=
  bind (of_leaves hx) (.any x) fun b _ => hf b

/-- Storing a session dates it as it is; what follows does not fail and shows in no session. -/
theorem store {id : UInt32} {y : Session} {k : Unit → Action α}
    (hk : ∀ r, ∃ a r', (k ()).result r = (.ok a, r') ∧ r'.sessions = r.sessions ∧
      (P a → id = s → y.lastActivity ≤ t)) : Rests s t P (SessionRegistry.store id y >>= k) := by
  intro r hr hP
  obtain ⟨a, r', hresult, hsessions, hdated⟩ := hk { r with sessions := r.sessions.insert id y }
  have hall : (SessionRegistry.store id y >>= k).result r = (.ok a, r') := by
    rw [result_bind]
    exact hresult
  rw [hall] at hP ⊢
  intro x hx
  rw [hsessions, Table.get?_insert] at hx
  by_cases hid : s = id
  · rw [hid, update_self] at hx
    rw [← Option.some.inj hx]
    exact hdated (hP a rfl) hid.symm
  · rw [update_of_ne hid] at hx
    exact hr x hx

end Action.Rests

section Actions

theorem advance_grants_lastActivity (id : UInt32) (x : Session) (event : Session.Event) :
    Grants (advance id x event) (·.lastActivity = x.lastActivity) := by
  intro r y hy
  obtain ⟨-, ⟨state, -, hres⟩ | ⟨⟨e, he⟩, -⟩, -⟩ := advance_cases id x event r rfl rfl
  · obtain rfl := Except.ok.inj (hy.symm.trans hres)
    rfl
  · exact (ok_ne_error hy he).elim

theorem beginStart_rests (hostkey : Bytes) :
    Rests s t (fun o => now ≤ t ∨ o.session ≠ s) (beginStart now hostkey) := by
  apply Rests.after (presented_leaves hostkey)
  intro key
  apply Rests.after (draw_leaves keyLength)
  intro sharedKey
  apply Rests.after (draw_leaves keyLength)
  intro localMac
  simp only [reserve, bind_assoc, pure_bind]
  apply Rests.after allocate_leaves
  intro id
  apply Rests.store
  intro r
  refine ⟨_, r, rfl, rfl, ?_⟩
  rintro (hnow | hne) hid
  · exact hnow
  · exact (hne hid).elim

theorem endStart_rests (o : Opening) :
    Rests s t (fun a => now ≤ t ∨ a.1 ≠ s) (endStart now o) := by
  refine Rests.bind (Q := fun _ => True) ?_ (.any _) ?_
  · -- Sealing that fails drops the session.
    intro r hr _
    rw [result_tryCatch]
    have hsealing : Leaves (do return (← sealFor o.key o.sharedKey, ← sealFor o.key o.localMac))
        [] [] := by
      apply (sealFor_leaves _ _).bind
      intro keyBlock
      apply (sealFor_leaves _ _).bind
      intro macBlock
      exact .pure _
    have hsealed := (hsealing r).session s List.not_mem_nil
    split
    · next heq =>
      rw [heq] at hsealed
      exact hr.of_sessions hsealed
    · next e r' heq =>
      rw [heq] at hsealed
      apply (hr.of_sessions hsealed).of_sub
      intro x hx
      have herased : (r'.sessions.erase o.session).get? s = some x := hx
      rw [Table.get?_erase] at herased
      by_cases hid : s = o.session
      · rw [hid, update_self] at herased
        cases herased
      · rwa [update_of_ne hid] at herased
  · intro blocks _
    simp only [finishStart, bind_assoc]
    apply Rests.after (lookup_leaves _)
    intro x
    apply Rests.after (advance_leaves _ x _)
    intro y
    apply Rests.store
    intro r
    refine ⟨_, r, rfl, rfl, ?_⟩
    rintro (hnow | hne) hid
    · exact hnow
    · exact (hne hid).elim

theorem enroll_rests (key : Rsa.PublicKey) (peer : Identity) (sharedKey remoteMac : Bytes) :
    Rests s t (fun a => now ≤ t ∨ a.1 ≠ s) (enroll now key peer sharedKey remoteMac) := by
  apply Rests.after (draw_leaves keyLength)
  intro localMac
  apply Rests.after (sealFor_leaves key localMac)
  intro block
  apply Rests.after allocate_leaves
  intro id
  apply Rests.bind (.of_leaves (advance_leaves id _ _)) (advance_grants_lastActivity id _ _)
  intro x hx
  apply Rests.store
  intro r
  refine ⟨_, { r with directory := r.directory.bindSession id peer }, rfl, rfl, ?_⟩
  rintro (hnow | hne) hid
  · exact hx.trans_le hnow
  · exact (hne hid).elim

theorem accept_rests (hostkey keyBlock macBlock : Bytes) :
    Rests s t (fun a => now ≤ t ∨ a.1 ≠ s) (accept now hostkey keyBlock macBlock) := by
  apply Rests.after (presented_leaves hostkey)
  intro key
  apply Rests.after (openBlock_leaves keyBlock)
  intro sharedKey
  apply Rests.after (openBlock_leaves macBlock)
  intro remoteMac
  split
  · exact enroll_rests key _ sharedKey remoteMac
  · exact .of_leaves (.throw _)

theorem endConfirm_rests (id : UInt32) (block : Bytes) :
    Rests s t (fun _ => now ≤ t ∨ id ≠ s) (endConfirm now id block) := by
  simp only [endConfirm, commitConfirm, bind_assoc, pure_bind]
  apply Rests.after (openBlock_leaves block)
  intro remoteMac
  apply Rests.after (lookup_leaves id)
  intro x
  apply Rests.after (advance_leaves id x _)
  intro y
  apply Rests.store
  intro r
  refine ⟨_, { r with directory := r.directory.bindSession id y.peer }, rfl, rfl, ?_⟩
  rintro (hnow | hne) hid
  · exact hnow
  · exact (hne hid).elim

end Actions

/-! ### Layer operations -/

/-- The sessions that a part looks up for their layers: those listed before the first that can carry
none. -/
def Part.lookedUp (r : SessionRegistry) : Part → List UInt32
  | encrypt ids _ => ids.takeWhile fun id => (pick (fun x => some x.localMac) r.holdings id).isOk
  | decrypt ids _ => ids.takeWhile fun id => (pick (·.remoteMac?) r.holdings id).isOk
  | _ => []

/-- A layer operation dates the sessions that it looks up, whether it fails or not. -/
theorem get?_encrypt (now : Instant) (ids : List UInt32) (payload : Bytes) (r : SessionRegistry)
    (id : UInt32) : ((Part.encrypt ids payload).run now r).2.sessions.get? id =
      (r.sessions.get? id).map fun x =>
        if id ∈ (Part.encrypt ids payload).lookedUp r then { x with lastActivity := now } else x := by
  rw [Part.run, snd_outcome, layerEncrypt, result_bind, layers_result fun _ => rfl]
  cases ids.mapM (pick (fun x => some x.localMac) r.holdings) with
  | error e => exact get?_touchAll _ id
  | ok ls =>
    have hwrapped : Leaves (wrapAll ls payload) [] [] := wrapAll_leaves ls payload
    exact ((hwrapped _).session id List.not_mem_nil).trans (get?_touchAll _ id)

theorem get?_decrypt (now : Instant) (ids : List UInt32) (blob : Bytes) (r : SessionRegistry)
    (id : UInt32) : ((Part.decrypt ids blob).run now r).2.sessions.get? id =
      (r.sessions.get? id).map fun x =>
        if id ∈ (Part.decrypt ids blob).lookedUp r then { x with lastActivity := now } else x := by
  rw [Part.run, snd_outcome, layerDecrypt_result]
  exact get?_touchAll _ id

theorem Quiet.of_lookedUp {ids : List UInt32} (h : Quiet s t r)
    (hsame : r'.sessions.get? s =
      (r.sessions.get? s).map fun x => if s ∈ ids then { x with lastActivity := now } else x)
    (hs : now ≤ t ∨ s ∉ ids) : Quiet s t r' := by
  intro y hy
  rw [hsame] at hy
  obtain ⟨x, hx, rfl⟩ := Option.map_eq_some_iff.1 hy
  split
  · next hmem => exact hs.resolve_right fun h => h hmem
  · exact h x hx

/-! ### Parts -/

/-- What a part gives says that it is done for a session. -/
inductive Part.DoneFor (id : UInt32) : Part → Outcome → Prop
  | reserved {hostkey : Bytes} {o : Opening} (hid : o.session = id) :
      DoneFor id (.reserve hostkey) (.reserved o)
  | started {o : Opening} {keyBlock macBlock : Bytes} :
      DoneFor id (.finish o) (.started id keyBlock macBlock)
  | accepted {hostkey keyBlock macBlock block : Bytes} :
      DoneFor id (.accept hostkey keyBlock macBlock) (.accepted id block)
  | confirmed {block : Bytes} : DoneFor id (.commit id block) .done
  | encrypted {ids : List UInt32} {payload blob : Bytes} (hid : id ∈ ids) :
      DoneFor id (.encrypt ids payload) (.text blob)
  | decrypted {ids : List UInt32} {blob text : Bytes} (hid : id ∈ ids) :
      DoneFor id (.decrypt ids blob) (.text text)

/-- What fails is done for nobody. -/
theorem Part.not_doneFor_failed (part : Part) (e : SessionError) : ¬part.DoneFor s (.failed e) := by
  rintro ⟨⟩

theorem Quiet.of_rests {P : α → Prop} {x : Action α} {f : α → Outcome} (h : Quiet s t r)
    (hx : Rests s t P x) (hP : ∀ a, (x.outcome f r).1 = f a → P a) :
    Quiet s t (x.outcome f r).2 := by
  rw [snd_outcome]
  exact hx r h fun a ha => hP a (outcome_of_result ha)

/-- A part dates a session no later than a moment, unless it begins later and is done for the
session or looks it up. -/
theorem Part.quiet (part : Part) (h : Quiet s t r)
    (hrest : now ≤ t ∨ ¬part.DoneFor s (part.run now r).1 ∧ s ∉ part.lookedUp r) :
    Quiet s t (part.run now r).2 := by
  cases part with
  | reserve hostkey =>
    refine h.of_rests (beginStart_rests hostkey) fun o ho => hrest.imp_right ?_
    rintro ⟨hdone, -⟩ hid
    exact hdone (ho ▸ .reserved hid)
  | finish o =>
    refine h.of_rests (endStart_rests o) fun a ha => hrest.imp_right ?_
    rintro ⟨hdone, -⟩ rfl
    exact hdone (ha ▸ .started)
  | accept hostkey keyBlock macBlock =>
    refine h.of_rests (accept_rests hostkey keyBlock macBlock) fun a ha => hrest.imp_right ?_
    rintro ⟨hdone, -⟩ rfl
    exact hdone (ha ▸ .accepted)
  | check session =>
    have hcheck : Rests s t (fun _ => True) (checkConfirm session) := by
      apply Rests.of_leaves
      apply (lookup_leaves session).bind
      intro x
      apply (advance_leaves session x _).bind
      intro _
      exact .pure _
    exact h.of_rests hcheck fun _ _ => trivial
  | commit session block =>
    refine h.of_rests (endConfirm_rests session block) fun a ha => hrest.imp_right ?_
    rintro ⟨hdone, -⟩ rfl
    exact hdone (ha ▸ .confirmed)
  | close session =>
    apply h.of_sub
    intro x hx
    have hclosed : (r.close session).sessions.get? s = some x := hx
    by_cases hid : s ∈ [session]
    · have hnone : (r.close session).sessions.get? s = none := by
        rw [get?_eq_none_iff, (holdings_close r session).2, List.mem_singleton.1 hid, update_self]
      cases hnone.symm.trans hclosed
    · rwa [(close_leaves session r).session s hid] at hclosed
  | expire limit =>
    apply h.of_sub
    intro x hx
    have hkept : (r.sessions.filter fun _ y => !isIdle now limit y).get? s = some x := hx
    rw [Table.get?_filter] at hkept
    exact (Option.filter_eq_some_iff.1 hkept).1
  | encrypt ids payload =>
    exact h.of_lookedUp (get?_encrypt now ids payload r s) (hrest.imp_right And.right)
  | decrypt ids blob =>
    exact h.of_lookedUp (get?_decrypt now ids blob r s) (hrest.imp_right And.right)

/-! ### Runs -/

/-- A part, the moment of it and the registry before it. -/
structure Dated where
  now : Instant
  part : Part
  before : SessionRegistry

/-- What a part gave. -/
def Dated.outcome (d : Dated) : Outcome := (d.part.run d.now d.before).1

/-- A registry goes on to another over parts of operations, newest first. -/
inductive RanAt (r₀ : SessionRegistry) : List Dated → SessionRegistry → Prop
  | start : RanAt r₀ [] r₀
  | step {steps : List Dated} {r : SessionRegistry} (hran : RanAt r₀ steps r) (now : Instant)
      (part : Part) : RanAt r₀ (⟨now, part, r⟩ :: steps) (part.run now r).2

theorem RanAt.quiet {r₀ : SessionRegistry} {steps : List Dated} (hran : RanAt r₀ steps r)
    (h : Quiet s t r₀) (hrest : ∀ d ∈ steps,
      d.now ≤ t ∨ ¬d.part.DoneFor s d.outcome ∧ s ∉ d.part.lookedUp d.before) : Quiet s t r := by
  induction hran with
  | start => exact h
  | step _ now part ih =>
    obtain ⟨hlast, hearlier⟩ := List.forall_mem_cons.1 hrest
    exact part.quiet (ih hearlier) hlast

/-- An expiry later than a session was last active by the limit finds it idle. -/
theorem Quiet.expires (h : Quiet s t r) {limit : Duration} {late : Instant}
    (hlate : t + limit.nanoseconds < late) :
    (r.expire late limit).contains s = false ∧
      (r.contains s = true → s ∈ r.idle late limit) := by
  have hidle : ∀ x, r.sessions.get? s = some x → isIdle late limit x = true := by
    intro x hx
    have hdated : x.lastActivity + limit.nanoseconds < late :=
      lt_of_le_of_lt (Nat.add_le_add_right (h x hx) _) hlate
    rw [Nat.add_comm] at hdated
    exact decide_eq_true (Nat.lt_sub_of_add_lt hdated)
  constructor
  · rw [contains, Table.contains]
    show ((r.sessions.filter fun _ y => !isIdle late limit y).get? s).isSome = false
    rw [Table.get?_filter]
    cases hx : r.sessions.get? s with
    | none => rfl
    | some x => simp [Option.filter, hidle x hx]
  · intro hthere
    obtain ⟨x, hx⟩ := Option.isSome_iff_exists.1 hthere
    exact (mem_idle_iff r late limit s).2 ⟨x, hx, hidle x hx⟩

/-- A layer operation dates the sessions that it looks up, whether it fails or not, and no others.
If from a moment on nothing is done for a session, and no layer operation looks it up, an expiry
later than that by its limit drops the session, whatever else is done and fails in between. -/
theorem idle_session_expires {r₀ : SessionRegistry} {steps : List Dated} (hran : RanAt r₀ steps r)
    (h : ∀ x, r₀.sessions.get? s = some x → x.lastActivity ≤ t)
    (hrest : ∀ d ∈ steps,
      d.now ≤ t ∨ ¬d.part.DoneFor s d.outcome ∧ s ∉ d.part.lookedUp d.before) :
    (∀ (r : SessionRegistry) now (part : Part) ids data id,
      part = .encrypt ids data ∨ part = .decrypt ids data →
      (part.run now r).2.sessions.get? id = (r.sessions.get? id).map fun x =>
        if id ∈ part.lookedUp r then { x with lastActivity := now } else x) ∧
    ∀ (limit : Duration) (late : Instant), t + limit.nanoseconds < late →
      (r.expire late limit).contains s = false ∧
        (r.contains s = true → s ∈ r.idle late limit) := by
  constructor
  · rintro r now part ids data id (rfl | rfl)
    · exact get?_encrypt now ids data r id
    · exact get?_decrypt now ids data r id
  · intro limit late hlate
    exact (hran.quiet h hrest).expires hlate

/-! ### A session that a failure keeps -/

/-- A registry accepts a session at the moment 0, and holds no other. -/
theorem exists_accepted :
    ∃ accept r s y, RanAt (twoRegistries false) [accept] r ∧ accept.now = 0 ∧ Quiet s 0 r ∧
      r.holdings = update (fun _ => none) s (some y) ∧ Keyed y ∧
      y.handshake.state = .established := by
  have hfit := twoRegistries_fit false
  obtain ⟨key, block, hkey, hblock⟩ := @exists_seals _ hfit madeUpKey rfl
  have hopens := hfit.inverts key _ _ hkey hblock
  have hacceptable : Acceptable (twoRegistries false).setting
      (twoRegistries true).keypair.hostkey block block :=
    ⟨(twoRegistries_fit true).taken, ⟨_, hopens, by decide⟩, _, hopens⟩
  obtain ⟨⟨s, back⟩, hok⟩ := accept_ok 0 hacceptable (spare_twoRegistries false)
  obtain ⟨-, haccept⟩ := accept_ensures 0 (twoRegistries true).keypair.hostkey block block
    (twoRegistries false) rfl rfl
  have hran := (@RanAt.start (twoRegistries false)).step 0
    (.accept (twoRegistries true).keypair.hostkey block block)
  have hquiet : Quiet s 0 ((Part.accept (twoRegistries true).keypair.hostkey block block).run 0
      (twoRegistries false)).2 := Part.quiet _ (fun _ h => nomatch h) (.inl le_rfl)
  rw [Part.run, snd_outcome] at hran hquiet
  generalize (accept 0 (twoRegistries true).keypair.hostkey block block).result
    (twoRegistries false) = run at hok haccept hran hquiet
  obtain ⟨_, r⟩ := run
  obtain rfl : _ = Except.ok (s, back) := hok
  obtain ⟨_, _, y, ⟨⟩, -, hholdings, haccepted⟩ | ⟨⟨_, ⟨⟩⟩, -⟩ := haccept
  obtain ⟨mac, -, hmac⟩ := haccepted.openedMac
  refine ⟨_, r, s, y, hran, rfl, hquiet, hholdings, ⟨haccepted.valid, fun _ => ?_⟩, ?_⟩
  · rw [hmac]
    rfl
  · rw [haccepted.handshake_eq]

section Kept
variable {y : Session} (hheld : r.holdings = update (fun _ => none) s (some y))
include hheld

/-- No other identifier is known. -/
theorem pick_of_other {macKey? : Session → Option Bytes} {id : UInt32} (hid : id ≠ s) :
    pick macKey? r.holdings id = .error (.notFound id) := by
  rw [hheld, pick, update_of_ne hid]

theorem layerDecrypt_empty (hy : Keyed y) (hstate : y.handshake.state = .established)
    (now : Instant) :
    ((layerDecrypt now [s] []).result r).1 = .error (.cipher (.tooShort 0 48)) := by
  have hkeyed : ∀ id x, r.holdings id = some x → Keyed x := by
    intro id x hx
    rw [hheld, update_apply] at hx
    split at hx
    · obtain rfl := Option.some.inj hx
      exact hy
    · cases hx
  have hestablished : ∀ id ∈ [s], Established r.holdings id := by
    intro id hid
    rw [List.mem_singleton.1 hid, hheld]
    exact ⟨y, update_self .., hstate⟩
  have hstripped : Strips r.holdings [] [] [] := ⟨[], rfl, rfl⟩
  exact @layerDecrypt_of_short now r [] [] s [] [] hkeyed hestablished hstripped (by decide)

/-- Decrypting nothing for the session fails and dates it nevertheless. -/
theorem get?_decrypt_empty (hy : Keyed y) (hstate : y.handshake.state = .established)
    (now : Instant) :
    ∃ x, r.sessions.get? s = some x ∧ ((Part.decrypt [s] []).run now r).2.sessions.get? s =
      some { x with lastActivity := now } := by
  obtain ⟨x, hx, hxy⟩ : ∃ x, r.sessions.get? s = some x ∧ x.untimed = y := by
    have hs : r.holdings s = some y := by rw [hheld, update_self]
    exact Option.map_eq_some_iff.1 hs
  obtain ⟨mac, hmac⟩ := Option.isSome_iff_exists.1 (hy.confirmed hstate)
  have hpick : pick (·.remoteMac?) r.holdings s = .ok ⟨s, y.sharedKey, mac⟩ :=
    pick_eq_ok.2 ⟨y, mac, by rw [hheld, update_self], hstate, hmac, rfl⟩
  have hlookedUp : s ∈ (Part.decrypt [s] []).lookedUp r := by
    simp [Part.lookedUp, hpick, Except.isOk, Except.toBool]
  exact ⟨x, hx, by rw [get?_decrypt, hx, Option.map_some, if_pos hlookedUp]⟩

end Kept

/-- A failure can date a session, and keep it from an expiry that comes later than the last success
on it by more than the limit: a registry accepts a session at 0 and decrypts nothing for it at 20,
which fails, and at 25 the session is not idle for longer than 10. -/
theorem not_expired_of_failures :
    (¬∀ (r : SessionRegistry) now ids blob e id x,
      ((layerDecrypt now ids blob).result r).1 = .error e → r.sessions.get? id = some x →
        ∃ x', ((layerDecrypt now ids blob).result r).2.sessions.get? id = some x' ∧
          x'.lastActivity = x.lastActivity) ∧
    ¬∀ (r₀ r : SessionRegistry) steps s t (limit : Duration) (late : Instant),
      r₀.sessions = .empty → RanAt r₀ steps r →
        (∀ d ∈ steps, d.now ≤ t ∨ ¬d.part.DoneFor s d.outcome) → t + limit.nanoseconds < late →
          (r.expire late limit).contains s = false := by
  obtain ⟨accept, r, s, y, hran, hnow, hquiet, hheld, hy, hstate⟩ := exists_accepted
  have hfails := layerDecrypt_empty hheld hy hstate 20
  obtain ⟨x, hx, hafter⟩ := get?_decrypt_empty hheld hy hstate 20
  have hdated := hquiet x hx
  constructor
  · intro h
    obtain ⟨x', hx', hsame⟩ := h r 20 [s] [] _ s x hfails hx
    rw [Part.run, snd_outcome, hx'] at hafter
    rw [Option.some.inj hafter] at hsame
    rw [← hsame] at hdated
    exact absurd hdated (show ¬20 ≤ 0 by decide)
  · intro h
    have hkept : ((((Part.decrypt [s] []).run 20 r).2.expire 25 ⟨10⟩).sessions.get? s).isSome =
        true := by
      show ((((Part.decrypt [s] []).run 20 r).2.sessions.filter
        fun _ y => !isIdle 25 ⟨10⟩ y).get? s).isSome = true
      rw [Table.get?_filter, hafter]
      rfl
    have hgone := h _ _ _ s 0 ⟨10⟩ 25 rfl (hran.step 20 (.decrypt [s] [])) ?_ (by decide)
    · exact absurd (hkept.symm.trans hgone) (by decide)
    · intro d hd
      obtain rfl | rfl := List.mem_pair.1 hd
      · have hfailed : Dated.outcome ⟨20, .decrypt [s] [], r⟩ = .failed _ := outcome_of_error hfails
        rw [hfailed]
        exact .inr (Part.not_doneFor_failed _ _)
      · exact .inl (hnow ▸ le_rfl)

/-- A registry accepts a session at 0 and fails at 20 to decrypt for an unknown one and it; at 25 the
session is idle for longer than 10, and an expiry drops it. -/
theorem idle_session_expires_unknown :
    ∃ steps r s, RanAt (twoRegistries false) steps r ∧ r.contains s = true ∧
      s ∈ r.idle 25 ⟨10⟩ ∧ (r.expire 25 ⟨10⟩).contains s = false := by
  obtain ⟨accept, r, s, y, hran, hnow, hquiet, hheld, hy, hstate⟩ := exists_accepted
  have hother : pick (·.remoteMac?) r.holdings (s + 1) = .error (.notFound (s + 1)) :=
    pick_of_other hheld (by simp)
  have hfails : ((layerDecrypt 20 [s + 1, s] []).result r).1 = .error (.notFound (s + 1)) :=
    layerDecrypt_of_refused 20 (List.forall_mem_nil _) hother
  have hrest : ∀ d ∈ [⟨20, .decrypt [s + 1, s] [], r⟩, accept],
      d.now ≤ 0 ∨ ¬d.part.DoneFor s d.outcome ∧ s ∉ d.part.lookedUp d.before := by
    intro d hd
    obtain rfl | rfl := List.mem_pair.1 hd
    · have hfailed : Dated.outcome ⟨20, .decrypt [s + 1, s] [], r⟩ = .failed _ :=
        outcome_of_error hfails
      rw [hfailed]
      refine .inr ⟨Part.not_doneFor_failed _ _, ?_⟩
      simp [Part.lookedUp, hother, Except.isOk, Except.toBool]
    · exact .inl (hnow ▸ le_rfl)
  have hlate := hran.step 20 (.decrypt [s + 1, s] [])
  obtain ⟨-, hexpires⟩ := idle_session_expires hlate (fun _ h => nomatch h) hrest
  obtain ⟨hgone, hidle⟩ := hexpires ⟨10⟩ 25 (by decide)
  have hthere : ((Part.decrypt [s + 1, s] []).run 20 r).2.contains s = true := by
    rw [contains_iff, Part.run, snd_outcome, holdings_layerDecrypt, hheld]
    exact ⟨y, update_self ..⟩
  exact ⟨_, _, s, hlate, hthere, hidle hthere, hgone⟩

end OnionTunnel.SessionRegistry
