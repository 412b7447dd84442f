import OnionTunnel.Proofs.Rsa.Inversion
import OnionTunnel.Proofs.Session.Interleaving

/-!
# Agreement on keys

The keys of a session travel in two blocks there and in one block back. Whatever any number of
registries do in between, the two ends hold the same keys once the second block has come in: the
initiator from the reservation on, the responder from the acceptance on, as long as the session is
there.
-/

namespace OnionTunnel.SessionRegistry

open Function Sealed

section Agreement
variable {ι : Type} {w w' w₀ : ι → SessionRegistry} {history later : List (Event ι)} {i j : ι}
  {s t : UInt32} {hostkey keyBlock macBlock block : Bytes}

/-- A registry has started a session for a hostkey, which gave two blocks, and has confirmed it with
a block. Nothing has dropped the session since its identifier was taken. -/
def Initiated (history : List (Event ι)) (i : ι) (hostkey keyBlock macBlock block : Bytes)
    (s : UInt32) : Prop :=
  ∃ later reserve earlier o, history = later ++ reserve :: earlier ∧
    reserve.node = i ∧ reserve.part = .reserve hostkey ∧ reserve.outcome = .reserved o ∧
    o.session = s ∧
    (∃ e ∈ later, e.node = i ∧ e.part = .finish o ∧ e.outcome = .started s keyBlock macBlock) ∧
    (∃ e ∈ later, e.node = i ∧ e.part = .commit s block ∧ e.outcome = .done) ∧
    Spared later i s

/-- A registry has accepted two blocks of the owner of a hostkey, which gave a session and a block.
Nothing has dropped the session since. -/
def Responded (history : List (Event ι)) (j : ι) (hostkey keyBlock macBlock block : Bytes)
    (t : UInt32) : Prop :=
  ∃ later accept earlier, history = later ++ accept :: earlier ∧
    accept.node = j ∧ accept.part = .accept hostkey keyBlock macBlock ∧
    accept.outcome = .accepted t block ∧ Spared later j t

/-- Two established sessions with one key, of which the second knows the tag key of the first. -/
def Faces (a : SessionRegistry) (s : UInt32) (b : SessionRegistry) (t : UInt32) : Prop :=
  ∃ x y, a.sessions.get? s = some x ∧ b.sessions.get? t = some y ∧
    x.isEstablished = true ∧ y.isEstablished = true ∧
    x.sharedKey = y.sharedKey ∧ y.remoteMac? = some x.localMac

/-- What the first session puts on the second one takes off. -/
theorem Faces.keys {a b : SessionRegistry} (h : Faces a s b t) :
    ∃ k, outward? a.holdings s = some k ∧ inward? b.holdings t = some k := by
  obtain ⟨x, y, hx, hy, hestablished, hestablished', hsecret, hmac⟩ := h
  refine ⟨_, outward?_of_get? hx hestablished, ?_⟩
  rw [hsecret]
  exact inward?_of_get? hy hestablished' hmac

/-- Two registries hold the ends of one session. -/
structure Agree (a : SessionRegistry) (s : UInt32) (b : SessionRegistry) (t : UInt32) : Prop where
  forth : Faces a s b t
  back : Faces b t a s
  peers : ∃ x y, a.sessions.get? s = some x ∧ b.sessions.get? t = some y ∧
    x.peer = b.keypair.identity ∧ y.peer = a.keypair.identity

/-! ### What an end holds -/

/-- What a start puts into its session before anything is sent. -/
structure Opening.Holds (o : Opening) (hostkey : Bytes) (x : Session) : Prop where
  peer_eq : x.peer = .ofHostkey hostkey
  sharedKey_eq : x.sharedKey = o.sharedKey
  localMac_eq : x.localMac = o.localMac

theorem Opening.Holds.change {o : Opening} {id : UInt32} {part : Part} {x x' : Session}
    (h : o.Holds hostkey x) (hchange : Change id part (some x) (some x')) : o.Holds hostkey x' := by
  cases hchange <;> exact ⟨h.peer_eq, h.sharedKey_eq, h.localMac_eq⟩

theorem reserve_outcome {now : Instant} {r : SessionRegistry} {o : Opening}
    (h : (Part.run now r (.reserve hostkey)).1 = .reserved o) :
    Hostkey.parse hostkey = .ok o.key ∧
      (Part.run now r (.reserve hostkey)).2.holdings o.session = some (o.reserved hostkey) := by
  obtain ⟨a, ha, hao⟩ := result_of_outcome h nofun
  obtain rfl := Outcome.reserved.inj hao
  have hstart := (beginStart_ensures now hostkey r rfl rfl).2
  rw [ha] at hstart
  obtain ⟨_, ⟨⟩, hkey, -, -, -, hholdings⟩ | ⟨⟨_, ⟨⟩⟩, _⟩ := hstart
  refine ⟨hkey, ?_⟩
  rw [Part.run, snd_outcome, hholdings, update_self]

theorem finish_outcome {now : Instant} {r : SessionRegistry} {o : Opening}
    (h : (Part.run now r (.finish o)).1 = .started s keyBlock macBlock) :
    o.key.Seals o.sharedKey keyBlock ∧ o.key.Seals o.localMac macBlock := by
  obtain ⟨a, ha, hao⟩ := result_of_outcome h nofun
  have hstart := (endStart_ensures now o r rfl rfl).2
  rw [ha] at hstart
  obtain ⟨_, _, _, ⟨⟩, hkeyBlock, hmacBlock, -⟩ | ⟨⟨_, ⟨⟩⟩, _⟩ := hstart
  obtain ⟨-, rfl, rfl⟩ := Outcome.started.inj hao
  exact ⟨hkeyBlock, hmacBlock⟩

theorem commit_outcome {now : Instant} {r : SessionRegistry}
    (h : (Part.run now r (.commit s block)).1 = .done) :
    ∃ x mac, r.holdings s = some x ∧ r.keypair.decrypt block = .ok mac ∧
      (Part.run now r (.commit s block)).2.holdings s =
        some { x with handshake := ⟨.initiator, .established⟩, remoteMac? := some mac } := by
  obtain ⟨a, ha, -⟩ := result_of_outcome h nofun
  have hconfirm := (endConfirm_ensures now s block r rfl rfl).2
  rw [ha] at hconfirm
  obtain ⟨_, x, mac, ⟨⟩, hx, -, hmac, hholdings⟩ | ⟨⟨_, ⟨⟩⟩, _⟩ := hconfirm
  refine ⟨x, mac, hx, hmac, ?_⟩
  rw [Part.run, snd_outcome, hholdings, update_self]

theorem accept_outcome {now : Instant} {r : SessionRegistry}
    (h : (Part.run now r (.accept hostkey keyBlock macBlock)).1 = .accepted t block) :
    ∃ y, (Part.run now r (.accept hostkey keyBlock macBlock)).2.holdings t = some y ∧
      Accepted r.setting hostkey keyBlock macBlock y block := by
  obtain ⟨a, ha, hao⟩ := result_of_outcome h nofun
  have haccept := (accept_ensures now hostkey keyBlock macBlock r rfl rfl).2
  rw [ha] at haccept
  obtain ⟨_, _, y, ⟨⟩, -, hholdings, haccepted⟩ | ⟨⟨_, ⟨⟩⟩, _⟩ := haccept
  obtain ⟨rfl, rfl⟩ := Outcome.accepted.inj hao
  refine ⟨y, ?_, haccepted⟩
  rw [Part.run, snd_outcome, hholdings, update_self]

variable [DecidableEq ι]

/-- The initiator holds the keys that it sealed, and the tag key in the block it was confirmed
with. -/
theorem Initiated.holds (h : Initiated history i hostkey keyBlock macBlock block s)
    (hrun : Runs w₀ history w) :
    ∃ x key mac, (w i).holdings s = some x ∧ x.handshake.state = .established ∧
      x.peer = .ofHostkey hostkey ∧ Hostkey.parse hostkey = .ok key ∧
      key.Seals x.sharedKey keyBlock ∧ key.Seals x.localMac macBlock ∧
      (w₀ i).keypair.decrypt block = .ok mac ∧ x.remoteMac? = some mac := by
  obtain ⟨later, reserve, earlier, o, rfl, rfl, hpart, hreserved, rfl, hstarted, hconfirmed,
    hspared⟩ := h
  obtain ⟨w₁, now, hrun₁, hout, hafter, hlater⟩ := hrun.at_event
  rw [hpart] at hout hafter
  rw [hreserved] at hout
  obtain ⟨hkey, hholdings⟩ := reserve_outcome hout.symm
  rw [← hafter] at hholdings
  obtain ⟨hkept, -⟩ := hlater.kept
    (by rw [update_self]; exact (contains_iff _ _).2 ⟨_, hholdings⟩) hspared
  obtain ⟨hkeyBlock, hmacBlock⟩ : o.key.Seals o.sharedKey keyBlock ∧
      o.key.Seals o.localMac macBlock := by
    obtain ⟨e, he, -, hfinish, hdone⟩ := hstarted
    obtain ⟨after, before, rfl⟩ := List.append_of_mem he
    obtain ⟨w₂, now₂, -, hout₂, -, -⟩ := hlater.at_event
    rw [hfinish, hdone] at hout₂
    exact finish_outcome hout₂.symm
  -- the session holds the keys up to the confirmation, and does not change after it
  obtain ⟨e, he, hnode, hcommit, hdone⟩ := hconfirmed
  obtain ⟨after, before, rfl⟩ := List.append_of_mem he
  obtain ⟨hkept₂, hkept₁⟩ := hkept.of_append
  obtain ⟨w₂, now₂, hrun₂, hout₂, hafter₂, hlast⟩ := hlater.at_event
  rw [hcommit, hnode] at hout₂ hafter₂
  rw [hdone] at hout₂
  rw [hnode] at hlast
  obtain ⟨x, hx, hholds⟩ := hrun₂.preserves (P := o.Holds hostkey)
    (fun part x x' hchange hx => hx.change hchange)
    (fun e he => hkept₁ e (List.mem_cons_of_mem _ he))
    ⟨_, by rwa [update_self], rfl, rfl, rfl⟩
  obtain ⟨x', mac, hx', hmac, hdone'⟩ := commit_outcome hout₂.symm
  obtain rfl := Option.some.inj (hx.symm.trans hx')
  have hend := hlast.established hkept₂ (by rw [update_self, hafter₂]; exact hdone') rfl
  have hkeypair : (w₂ reserve.node).keypair = (w₀ reserve.node).keypair := by
    have hset := hrun₂.setting reserve.node
    rw [update_self, hafter, (Part.changes now _ _).1, hrun₁.setting] at hset
    exact congrArg Setting.keypair hset
  rw [hkeypair] at hmac
  refine ⟨_, o.key, mac, hend, rfl, hholds.peer_eq, hkey, ?_, ?_, hmac, rfl⟩
  · rw [← hholds.sharedKey_eq] at hkeyBlock
    exact hkeyBlock
  · rw [← hholds.localMac_eq] at hmacBlock
    exact hmacBlock

/-- The responder holds what it opened, and the tag key that it sealed. -/
theorem Responded.holds (h : Responded history j hostkey keyBlock macBlock block t)
    (hrun : Runs w₀ history w) :
    ∃ y, (w j).holdings t = some y ∧
      Accepted (w₀ j).setting hostkey keyBlock macBlock y block := by
  obtain ⟨later, accept, earlier, rfl, rfl, hpart, haccepted, hspared⟩ := h
  obtain ⟨w₁, now, hrun₁, hout, hafter, hlater⟩ := hrun.at_event
  rw [hpart] at hout hafter
  rw [haccepted] at hout
  obtain ⟨y, hy, hholds⟩ := accept_outcome hout.symm
  rw [← hafter] at hy
  rw [hrun₁.setting] at hholds
  obtain ⟨hkept, -⟩ := hlater.kept
    (by rw [update_self]; exact (contains_iff _ _).2 ⟨_, hy⟩) hspared
  exact ⟨y, hlater.established hkept (by rwa [update_self]) (by rw [hholds.handshake_eq]), hholds⟩

/-! ### Both ends -/

/-- Both ends agree once the initiator has confirmed what the responder sent. -/
theorem Initiated.agree (hrun : Runs w₀ history w) (hi : (w₀ i).keypair.Inverts)
    (hj : (w₀ j).keypair.Inverts)
    (ha : Initiated history i (w₀ j).keypair.hostkey keyBlock macBlock block s)
    (hb : Responded history j (w₀ i).keypair.hostkey keyBlock macBlock block t) :
    Agree (w i) s (w j) t := by
  obtain ⟨x, key, mac, hx, hestablished, hpeer, hkey, hkeyBlock, hmacBlock, hmac, hremote⟩ :=
    ha.holds hrun
  obtain ⟨y, hy, haccepted⟩ := hb.holds hrun
  obtain ⟨keyBack, hkeyBack, hback⟩ := haccepted.sealed
  obtain ⟨mac', hmac', hremote'⟩ := haccepted.openedMac
  have hsecret : x.sharedKey = y.sharedKey :=
    Except.ok.inj ((hj key _ _ hkey hkeyBlock).symm.trans haccepted.opened)
  have htag : x.localMac = mac' :=
    Except.ok.inj ((hj key _ _ hkey hmacBlock).symm.trans hmac')
  have htag' : y.localMac = mac :=
    Except.ok.inj ((hi keyBack _ _ hkeyBack hback).symm.trans hmac)
  obtain ⟨x₀, hx₀, rfl⟩ := Option.map_eq_some_iff.1 hx
  obtain ⟨y₀, hy₀, rfl⟩ := Option.map_eq_some_iff.1 hy
  have hestablished' : y₀.isEstablished = true :=
    decide_eq_true (congrArg Session.Handshake.state haccepted.handshake_eq)
  have hkeypair : ∀ i, (w i).keypair = (w₀ i).keypair :=
    fun i => congrArg Setting.keypair (hrun.setting i)
  constructor
  · exact ⟨x₀, y₀, hx₀, hy₀, decide_eq_true hestablished, hestablished', hsecret,
      hremote'.trans (congrArg some htag.symm)⟩
  · exact ⟨y₀, x₀, hy₀, hx₀, hestablished', decide_eq_true hestablished, hsecret.symm,
      hremote.trans (congrArg some htag'.symm)⟩
  · refine ⟨x₀, y₀, hx₀, hy₀, ?_, ?_⟩
    · rw [hkeypair]
      exact hpeer
    · rw [hkeypair]
      exact haccepted.peer_eq

/-- What the first of two sessions seals, the second opens as long as it is there. -/
theorem Faces.opens (h : Faces (w i) s (w j) t)
    (hvalid : ∀ y, (w j).sessions.get? t = some y → Aes.validLength y.sharedKey.length)
    (now : Instant) (payload : Bytes) :
    ∃ blob, ((layerEncrypt now [s] payload).result (w i)).1 = .ok blob ∧
      ∀ later w' now', Runs w later w' → Spared later j t →
        ((layerDecrypt now' [t] blob).result (w' j)).1 = .ok payload := by
  obtain ⟨x, y, hx, hy, hestablished, hestablished', hsecret, hmac⟩ := h
  have hy' : (w j).holdings t = some y.untimed := by
    rw [holdings, hy]
    rfl
  have houts : [s].map (outward? (w i).holdings) = [(x.sharedKey, x.localMac)].map some := by
    rw [List.map_singleton, outward?_of_get? hx hestablished, List.map_singleton]
  have hkey : ∀ k ∈ [(x.sharedKey, x.localMac)], Aes.validLength k.1.length := by
    intro k hk
    rw [List.mem_singleton.1 hk, hsecret]
    exact hvalid y hy
  obtain ⟨-, hblob, -⟩ := layerEncrypt_ensures now [s] payload (w i) rfl rfl
  obtain ⟨blob, hresult, hpeels, -⟩ := hblob _ houts hkey
  refine ⟨blob, hresult, ?_⟩
  intro later w' now' hrun hspared
  obtain ⟨hkept, -⟩ := hrun.kept ((contains_iff _ _).2 ⟨_, hy'⟩) hspared
  have hkeep : (w' j).holdings t = some y.untimed :=
    hrun.established hkept hy' (of_decide_eq_true hestablished')
  have hin : inward? (w' j).holdings t = some (y.sharedKey, x.localMac) :=
    @layerKeys?_of_some _ _ t y.untimed _ hkeep (of_decide_eq_true hestablished') hmac
  rw [layerDecrypt_ok]
  refine ⟨[(x.sharedKey, x.localMac)], ?_, hpeels⟩
  rw [List.map_singleton, List.map_singleton, hin, hsecret]

/-! ### Handshakes that go through -/

omit [DecidableEq ι] in
theorem reserve_done {r : SessionRegistry} (now : Instant)
    (hkey : ∃ key, Hostkey.parse hostkey = .ok key) (hspare : Spare r) :
    ∃ o : Opening, (Part.run now r (.reserve hostkey)).1 = .reserved o ∧
      Hostkey.parse hostkey = .ok o.key ∧ o.sharedKey.length = keyLength ∧
      o.localMac.length = keyLength := by
  obtain ⟨key, hkey⟩ := hkey
  obtain ⟨o', hok⟩ := beginStart_ok now hkey hspare
  have hstart := (beginStart_ensures now hostkey r rfl rfl).2
  obtain ⟨o, hres, hparse, hsecret, hmac, -⟩ | ⟨⟨e, herror⟩, -⟩ := hstart
  · exact ⟨o, outcome_of_result hres, hparse, hsecret, hmac⟩
  · exact (ok_ne_error hok herror).elim

omit [DecidableEq ι] in
theorem finish_done {r : SessionRegistry} (now : Instant) {o : Opening} {x : Session}
    (hx : r.holdings o.session = some x) (hfresh : x.handshake = .fresh .initiator)
    (hsize : ¬ (o.key.size < o.sharedKey.length + Rsa.minPadding ∨
      o.key.size < o.localMac.length + Rsa.minPadding)) :
    ∃ keyBlock macBlock, (Part.run now r (.finish o)).1 = .started o.session keyBlock macBlock ∧
      (Part.run now r (.finish o)).2.holdings o.session =
        some { x with handshake := ⟨.initiator, .awaitingConfirm⟩ } := by
  have hstart := (endStart_ensures now o r rfl rfl).2
  obtain ⟨keyBlock, macBlock, x', hres, -, -, hx', -, hholdings⟩ |
    ⟨-, ⟨hother, -⟩ | ⟨hsmall, -⟩⟩ := hstart
  · obtain rfl := Option.some.inj (hx.symm.trans hx')
    refine ⟨keyBlock, macBlock, outcome_of_result hres, ?_⟩
    rw [Part.run, snd_outcome, hholdings, update_self]
  · exact (hother x hx hfresh).elim
  · exact (hsize hsmall).elim

omit [DecidableEq ι] in
theorem accept_done {r : SessionRegistry} (now : Instant)
    (h : Acceptable r.setting hostkey keyBlock macBlock) (hspare : Spare r) :
    ∃ t block, (Part.run now r (.accept hostkey keyBlock macBlock)).1 = .accepted t block := by
  obtain ⟨⟨t, block⟩, hres⟩ := accept_ok now h hspare
  exact ⟨t, block, outcome_of_result hres⟩

omit [DecidableEq ι] in
theorem commit_done {r : SessionRegistry} (now : Instant) {x : Session} {mac : Bytes}
    (hx : r.holdings s = some x) (hawaits : x.handshake = ⟨.initiator, .awaitingConfirm⟩)
    (hmac : r.keypair.decrypt block = .ok mac) :
    (Part.run now r (.commit s block)).1 = .done := by
  have hconfirm := (endConfirm_ensures now s block r rfl rfl).2
  obtain ⟨a, -, -, hres, -⟩ | ⟨-, ⟨e, herror⟩ | hother, -⟩ := hconfirm
  · exact outcome_of_result hres
  · exact (ok_ne_error hmac herror).elim
  · exact (hother x hx hawaits).elim

/-- A start, its acceptance by another registry and its confirmation go through if nothing comes
between them. -/
theorem exists_handshake (hij : i ≠ j) (hi : (w₀ i).keypair.Fit) (hj : (w₀ j).keypair.Fit)
    (hids : ∀ k, Spare (w₀ k)) :
    ∃ history w s t keyBlock macBlock block, Runs w₀ history w ∧
      Initiated history i (w₀ j).keypair.hostkey keyBlock macBlock block s ∧
      Responded history j (w₀ i).keypair.hostkey keyBlock macBlock block t := by
  obtain ⟨key, hkey, hsize⟩ := hj.taken
  obtain ⟨o, hreserve, hparse, hsecret, hmac⟩ := reserve_done 0 ⟨key, hkey⟩ (hids i)
  obtain rfl := Except.ok.inj (hkey.symm.trans hparse)
  have hlarge : ¬ (o.key.size < o.sharedKey.length + Rsa.minPadding ∨
      o.key.size < o.localMac.length + Rsa.minPadding) := by omega
  obtain ⟨-, hreserved⟩ := reserve_outcome hreserve
  have hrun₁ := (Runs.start (w := w₀)).step i 0 (.reserve (w₀ j).keypair.hostkey)
  rw [hreserve] at hrun₁
  generalize (Part.run 0 (w₀ i) (.reserve (w₀ j).keypair.hostkey)).2 = r₁ at hrun₁ hreserved
  obtain ⟨keyBlock, macBlock, hfinish, hstarted⟩ := finish_done 0 hreserved rfl hlarge
  obtain ⟨hkeyBlock, hmacBlock⟩ := finish_outcome hfinish
  have hrun₂ := hrun₁.next (update_self i _ w₀) 0 (.finish o)
  rw [hfinish] at hrun₂
  generalize (Part.run 0 r₁ (.finish o)).2 = r₂ at hrun₂ hstarted
  have hacceptable : Acceptable (w₀ j).setting (w₀ i).keypair.hostkey keyBlock macBlock := by
    refine ⟨hi.taken, ⟨o.sharedKey, hj.inverts _ _ _ hparse hkeyBlock, ?_⟩,
      ⟨o.localMac, hj.inverts _ _ _ hparse hmacBlock⟩⟩
    rw [hsecret]
    decide
  obtain ⟨t, block, haccept⟩ := accept_done 0 hacceptable (hids j)
  obtain ⟨y, -, haccepted⟩ := accept_outcome haccept
  obtain ⟨back, hback, hsealed⟩ := haccepted.sealed
  have hrun₃ := hrun₂.next (i := j) (by rw [update_of_ne hij.symm, update_of_ne hij.symm]) 0
    (.accept (w₀ i).keypair.hostkey keyBlock macBlock)
  rw [haccept] at hrun₃
  have hkeypair := congrArg Setting.keypair (hrun₃.setting i)
  rw [update_of_ne hij, update_self] at hkeypair
  have hcommit := commit_done 0 hstarted rfl
    ((congrArg (·.decrypt block) hkeypair).trans (hi.inverts back _ _ hback hsealed))
  have hrun₄ := hrun₃.next (i := i) (by rw [update_of_ne hij, update_self]) 0
    (.commit o.session block)
  rw [hcommit] at hrun₄
  refine ⟨_, _, o.session, t, keyBlock, macBlock, block, hrun₄, ?_, ?_⟩
  · refine ⟨[_, _, _], _, [], o, rfl, rfl, rfl, rfl, rfl,
      ⟨_, .tail _ (.tail _ (.head _)), rfl, rfl, rfl⟩, ⟨_, .head _, rfl, rfl, rfl⟩, ?_⟩
    intro e he hnode
    simp only [List.mem_cons, List.not_mem_nil, or_false] at he
    obtain rfl | rfl | rfl := he
    · rintro (h | ⟨_, h, -⟩ | ⟨_, h, -⟩) <;> cases h
    · rintro (h | ⟨_, h, -⟩ | ⟨_, h, -⟩) <;> cases h
    · rintro (h | ⟨_, h, -⟩ | ⟨_, h, -, hsmall⟩)
      · cases h
      · cases h
      · obtain rfl := Part.finish.inj h
        exact hlarge hsmall
  · refine ⟨[_], _, _, rfl, rfl, rfl, rfl, ?_⟩
    intro e he hnode
    obtain rfl := List.mem_singleton.1 he
    exact (hij hnode).elim

/-- Two registries with different keypairs and no sessions. -/
def twoRegistries (second : Bool) : SessionRegistry :=
  .empty (if second then .ofWideMersenne else .ofMersenne) (.counting 1 16)
    ⟨fun i => UInt8.ofNat i, 0⟩

theorem twoRegistries_fit (second : Bool) : (twoRegistries second).keypair.Fit := by
  cases second
  · exact Keypair.ofMersenne_fit
  · exact Keypair.ofWideMersenne_fit

theorem spare_twoRegistries (second : Bool) : Spare (twoRegistries second) := ⟨1, rfl⟩

/-! ### Agreement -/

/-- Any number of registries do whatever they do. Where one has started a session for the hostkey
of another, which has accepted the blocks of that start, and the first has confirmed the session
with the block that came back, both ends agree as long as both sessions are there, and what either
end seals the other opens. -/
theorem keys_agree (hrun : Runs w₀ history w) (hi : (w₀ i).keypair.Inverts)
    (hj : (w₀ j).keypair.Inverts)
    (ha : Initiated history i (w₀ j).keypair.hostkey keyBlock macBlock block s)
    (hb : Responded history j (w₀ i).keypair.hostkey keyBlock macBlock block t) :
    Agree (w i) s (w j) t ∧
      (∀ now payload, ∃ blob, ((layerEncrypt now [s] payload).result (w i)).1 = .ok blob ∧
        ∀ later w' now', Runs w later w' → Spared later j t →
          ((layerDecrypt now' [t] blob).result (w' j)).1 = .ok payload) ∧
      (∀ now payload, ∃ blob, ((layerEncrypt now [t] payload).result (w j)).1 = .ok blob ∧
        ∀ later w' now', Runs w later w' → Spared later i s →
          ((layerDecrypt now' [s] blob).result (w' i)).1 = .ok payload) := by
  have hagree := Initiated.agree hrun hi hj ha hb
  have hvalid : ∀ y, (w j).sessions.get? t = some y → Aes.validLength y.sharedKey.length := by
    intro y hy
    obtain ⟨y', hy', haccepted⟩ := hb.holds hrun
    rw [holdings, hy] at hy'
    obtain rfl := Option.some.inj hy'
    exact haccepted.valid
  have hvalid' : ∀ x, (w i).sessions.get? s = some x → Aes.validLength x.sharedKey.length := by
    intro x hx
    obtain ⟨x', y, hx', hy, -, -, hsecret, -⟩ := hagree.forth
    obtain rfl := Option.some.inj (hx.symm.trans hx')
    rw [hsecret]
    exact hvalid y hy
  exact ⟨hagree, hagree.forth.opens hvalid, hagree.back.opens hvalid'⟩

/-- The two exchange a handshake and agree. -/
theorem keys_agree_twoRegistries :
    ∃ history w s t keyBlock macBlock block, Runs twoRegistries history w ∧
      Initiated history false (twoRegistries true).keypair.hostkey keyBlock macBlock block s ∧
      Responded history true (twoRegistries false).keypair.hostkey keyBlock macBlock block t ∧
      Agree (w false) s (w true) t := by
  obtain ⟨history, w, s, t, keyBlock, macBlock, block, hrun, ha, hb⟩ :=
    exists_handshake (show false ≠ true by decide) (twoRegistries_fit false)
      (twoRegistries_fit true) spare_twoRegistries
  obtain ⟨hagree, -⟩ := keys_agree hrun (twoRegistries_fit false).inverts
    (twoRegistries_fit true).inverts ha hb
  exact ⟨history, w, s, t, keyBlock, macBlock, block, hrun, ha, hb, hagree⟩

end Agreement

end OnionTunnel.SessionRegistry
