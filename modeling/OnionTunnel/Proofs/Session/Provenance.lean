import OnionTunnel.Proofs.Session.Agreement

/-!
# What a session goes back to

A session of any number of registries among any network goes back to what its own registry was
given: a responder's to two blocks and a hostkey that came with them, an initiator's to the hostkey
that it was started for and to the block that it was confirmed with. What the blocks seal is what
the session holds. Nothing shows who sealed them: sessions can be opened in anybody's name with
blocks that are made up. If the blocks are those that another registry has given, the ends agree.
-/

namespace OnionTunnel.SessionRegistry

open Function

variable {ι : Type} {w w₀ : ι → SessionRegistry} {history : List (Event ι)} {i j : ι}
  {s t id : UInt32} {o : Opening} {x y : Session} {hostkey keyBlock macBlock block : Bytes}

/-! ### What registries have done -/

/-- A registry has begun a start for a hostkey. -/
def Began (history : List (Event ι)) (i : ι) (hostkey : Bytes) (o : Opening) : Prop :=
  ∃ e ∈ history, e.node = i ∧ e.part = .reserve hostkey ∧ e.outcome = .reserved o

/-- A registry has given the blocks of a start. -/
def Gave (history : List (Event ι)) (i : ι) (o : Opening) (keyBlock macBlock : Bytes) : Prop :=
  ∃ e ∈ history, e.node = i ∧ e.part = .finish o ∧ e.outcome = .started o.session keyBlock macBlock

/-- A registry has created a session for two blocks that came with a hostkey, and has given a block
back. -/
def Admitted (history : List (Event ι)) (j : ι) (hostkey keyBlock macBlock : Bytes) (t : UInt32)
    (block : Bytes) (y : Session) : Prop :=
  ∃ e ∈ history, e.node = j ∧ e.part = .accept hostkey keyBlock macBlock ∧
    e.outcome = .accepted t block ∧ e.after.holdings t = some y

/-- A registry has confirmed a session with a block. -/
def Confirmed (history : List (Event ι)) (i : ι) (s : UInt32) (block : Bytes) : Prop :=
  ∃ e ∈ history, e.node = i ∧ e.part = .commit s block ∧ e.outcome = .done

/-- What a session holds goes back to what its registry has done, for a keypair of that registry. -/
inductive Origin (k : Keypair) (history : List (Event ι)) (i : ι) (id : UInt32) (x : Session) : Prop
  | begun {hostkey : Bytes} {o : Opening} (hbegan : Began history i hostkey o)
      (hid : o.session = id) (hholds : o.Holds hostkey x)
      (hrole : x.handshake.role = .initiator)
      (hconfirmed : x.handshake.state = .established → ∃ block mac, Confirmed history i id block ∧
        k.decrypt block = .ok mac ∧ x.remoteMac? = some mac)
  | accepted {hostkey keyBlock macBlock block : Bytes}
      (hadmitted : Admitted history i hostkey keyBlock macBlock id block x)
      (hrole : x.handshake = ⟨.responder, .established⟩)

theorem Origin.cons {k : Keypair} (h : Origin k history i id x) (e : Event ι) :
    Origin k (e :: history) i id x := by
  cases h with
  | begun hbegan hid hholds hrole hconfirmed =>
    obtain ⟨b, hb, hrest⟩ := hbegan
    refine .begun ⟨b, List.mem_cons_of_mem e hb, hrest⟩ hid hholds hrole ?_
    intro hstate
    obtain ⟨block, mac, ⟨c, hc, hrest⟩, hopens⟩ := hconfirmed hstate
    exact ⟨block, mac, ⟨c, List.mem_cons_of_mem e hc, hrest⟩, hopens⟩
  | accepted hadmitted hrole =>
    obtain ⟨b, hb, hrest⟩ := hadmitted
    exact .accepted ⟨b, List.mem_cons_of_mem e hb, hrest⟩ hrole

/-! ### What a part leaves behind -/

section Parts
variable {now : Instant} {r : SessionRegistry}

theorem reserve_cases (now : Instant) (r : SessionRegistry) (hostkey : Bytes) :
    (∃ o, (Part.run now r (.reserve hostkey)).1 = .reserved o ∧
        (Part.run now r (.reserve hostkey)).2.holdings =
          update r.holdings o.session (some (o.reserved hostkey))) ∨
      (Part.run now r (.reserve hostkey)).2.holdings = r.holdings := by
  have hstart := (beginStart_ensures now hostkey r rfl rfl).2
  rw [Part.run, snd_outcome]
  obtain ⟨o, hres, -, -, -, -, hholdings⟩ | ⟨-, hholdings⟩ := hstart
  · exact .inl ⟨o, outcome_of_result hres, hholdings⟩
  · exact .inr hholdings

theorem accept_cases (now : Instant) (r : SessionRegistry) (hostkey keyBlock macBlock : Bytes) :
    (∃ t block y, (Part.run now r (.accept hostkey keyBlock macBlock)).1 = .accepted t block ∧
        (Part.run now r (.accept hostkey keyBlock macBlock)).2.holdings =
          update r.holdings t (some y) ∧ y.handshake = ⟨.responder, .established⟩) ∨
      (Part.run now r (.accept hostkey keyBlock macBlock)).2.holdings = r.holdings := by
  have haccept := (accept_ensures now hostkey keyBlock macBlock r rfl rfl).2
  rw [Part.run, snd_outcome]
  obtain ⟨t, block, y, hres, -, hholdings, haccepted⟩ | ⟨-, hholdings⟩ := haccept
  · exact .inl ⟨t, block, y, outcome_of_result hres, hholdings, haccepted.handshake_eq⟩
  · exact .inr hholdings

theorem commit_cases (now : Instant) (r : SessionRegistry) (s : UInt32) (block : Bytes) :
    (∃ x mac, (Part.run now r (.commit s block)).1 = .done ∧ r.holdings s = some x ∧
        r.keypair.decrypt block = .ok mac ∧ (Part.run now r (.commit s block)).2.holdings =
          update r.holdings s
            (some { x with handshake := ⟨.initiator, .established⟩, remoteMac? := some mac })) ∨
      (Part.run now r (.commit s block)).2.holdings = r.holdings := by
  have hconfirm := (endConfirm_ensures now s block r rfl rfl).2
  rw [Part.run, snd_outcome]
  obtain ⟨a, x, mac, hres, hx, -, hmac, hholdings⟩ | ⟨-, -, hholdings⟩ := hconfirm
  · exact .inl ⟨x, mac, outcome_of_result hres, hx, hmac, hholdings⟩
  · exact .inr hholdings

/-- After one more part of its registry, a session goes back to what was done. -/
theorem Origin.step {k : Keypair} (hk : r.keypair = k) (now : Instant) (part : Part)
    (hr : ∀ id x, r.holdings id = some x → Origin k history i id x)
    (hx : (part.run now r).2.holdings id = some x) :
    Origin k (⟨i, part, (part.run now r).1, (part.run now r).2⟩ :: history) i id x := by
  have hchange := (part.changes now r).2 id
  rw [hx] at hchange
  generalize hbefore : r.holdings id = before at hchange
  cases hchange with
  | same => exact (hr id x hbefore).cons _
  | @reserved hostkey =>
    obtain ⟨o, hout, hholdings⟩ | hholdings := reserve_cases now r hostkey
    · rw [hholdings] at hx
      by_cases hid : id = o.session
      · rw [hid, update_self] at hx
        rw [← Option.some.inj hx]
        exact .begun ⟨_, List.mem_cons_self, rfl, rfl, hout⟩ hid.symm ⟨rfl, rfl, rfl⟩ rfl nofun
      · rw [update_of_ne hid, hbefore] at hx
        cases hx
    · rw [hholdings, hbefore] at hx
      cases hx
  | @sent o x₀ hid hfresh =>
    cases hr id x₀ hbefore with
    | begun hbegan hid hholds hrole =>
      obtain ⟨b, hb, hrest⟩ := hbegan
      exact .begun ⟨b, List.mem_cons_of_mem _ hb, hrest⟩ hid
        ⟨hholds.peer_eq, hholds.sharedKey_eq, hholds.localMac_eq⟩ rfl nofun
    | accepted _ hrole =>
      rw [hfresh] at hrole
      cases hrole
  | @accepted hostkey keyBlock macBlock =>
    obtain ⟨t, block, y, hout, hholdings, hrole⟩ | hholdings :=
      accept_cases now r hostkey keyBlock macBlock
    · by_cases hid : id = t
      · subst hid
        have hy := hx
        rw [hholdings, update_self] at hy
        obtain rfl := Option.some.inj hy
        exact .accepted ⟨_, List.mem_cons_self, rfl, rfl, hout, hx⟩ hrole
      · rw [hholdings, update_of_ne hid, hbefore] at hx
        cases hx
    · rw [hholdings, hbefore] at hx
      cases hx
  | @confirmed block _ x₀ hawaits =>
    obtain ⟨x₁, mac, hout, hx₁, hmac, hholdings⟩ | hholdings := commit_cases now r id block
    · rw [hholdings, update_self] at hx
      obtain rfl := Option.some.inj (hx₁.symm.trans hbefore)
      rw [← Option.some.inj hx]
      cases hr id x₁ hbefore with
      | begun hbegan hid hholds hrole =>
        obtain ⟨b, hb, hrest⟩ := hbegan
        refine .begun ⟨b, List.mem_cons_of_mem _ hb, hrest⟩ hid
          ⟨hholds.peer_eq, hholds.sharedKey_eq, hholds.localMac_eq⟩ rfl fun _ => ?_
        exact ⟨block, mac, ⟨_, List.mem_cons_self, rfl, rfl, hout⟩, hk ▸ hmac, rfl⟩
      | accepted _ hrole =>
        rw [hawaits] at hrole
        cases hrole
    · rw [hholdings, hbefore] at hx
      have hsame := Option.some.inj hx
      rw [hsame] at hawaits
      cases hawaits

end Parts

/-! ### Runs -/

section Runs
variable [DecidableEq ι]

/-- What registries that start without sessions come to hold goes back to what they have done. -/
theorem Runs.origin (hrun : Runs w₀ history w) (hempty : ∀ i id, (w₀ i).holdings id = none)
    (hx : (w i).holdings id = some x) : Origin (w₀ i).keypair history i id x := by
  induction hrun generalizing id x with
  | start =>
    rw [hempty] at hx
    cases hx
  | @step history w hrun j now part ih =>
    by_cases hij : i = j
    · subst hij
      rw [update_self] at hx
      exact Origin.step (congrArg Setting.keypair (hrun.setting i)) now part (fun _ _ => ih) hx
    · rw [update_of_ne hij] at hx
      exact (ih hx).cons _

/-- A registry that has created a session holds in it what it opened, and has sealed its own tag key
in the block that it gave back. -/
theorem Admitted.accepted (hrun : Runs w₀ history w)
    (h : Admitted history j hostkey keyBlock macBlock t block y) :
    Accepted (w₀ j).setting hostkey keyBlock macBlock y block := by
  obtain ⟨e, he, rfl, hpart, hout, hy⟩ := h
  obtain ⟨later, earlier, rfl⟩ := List.append_of_mem he
  obtain ⟨w₁, now, hrun₁, hout', hafter, -⟩ := hrun.at_event
  rw [hpart] at hout' hafter
  rw [hout] at hout'
  obtain ⟨y', hy', haccepted⟩ := accept_outcome hout'.symm
  rw [hafter, hy'] at hy
  rw [← Option.some.inj hy, ← hrun₁.setting]
  exact haccepted

/-- The blocks of a start seal its keys for the owner of the hostkey. -/
theorem Gave.seals (hrun : Runs w₀ history w) (hbegan : Began history i hostkey o)
    (hgave : Gave history i o keyBlock macBlock) :
    Hostkey.parse hostkey = .ok o.key ∧ o.key.Seals o.sharedKey keyBlock ∧
      o.key.Seals o.localMac macBlock := by
  constructor
  · obtain ⟨e, he, rfl, hpart, hout⟩ := hbegan
    obtain ⟨later, earlier, rfl⟩ := List.append_of_mem he
    obtain ⟨w₁, now, -, hout', -, -⟩ := hrun.at_event
    rw [hpart, hout] at hout'
    exact (reserve_outcome hout'.symm).1
  · obtain ⟨e, he, rfl, hpart, hout⟩ := hgave
    obtain ⟨later, earlier, rfl⟩ := List.append_of_mem he
    obtain ⟨w₁, now, -, hout', -, -⟩ := hrun.at_event
    rw [hpart, hout] at hout'
    exact finish_outcome hout'.symm

/-- The responder holds the keys of a start whose blocks it was given, if these were meant for it. -/
theorem Admitted.holds (hrun : Runs w₀ history w) (hj : (w₀ j).keypair.Inverts)
    (h : Admitted history j hostkey keyBlock macBlock t block y)
    (hbegan : Began history i (w₀ j).keypair.hostkey o)
    (hgave : Gave history i o keyBlock macBlock) :
    y.sharedKey = o.sharedKey ∧ y.remoteMac? = some o.localMac := by
  obtain ⟨hkey, hkeyBlock, hmacBlock⟩ := hgave.seals hrun hbegan
  have haccepted := h.accepted hrun
  obtain ⟨mac, hmac, hremote⟩ := haccepted.openedMac
  have hsecret := (hj _ _ _ hkey hkeyBlock).symm.trans haccepted.opened
  have htag := (hj _ _ _ hkey hmacBlock).symm.trans hmac
  exact ⟨(Except.ok.inj hsecret).symm, by rw [hremote, Except.ok.inj htag]⟩

/-- What a responder has given back for a hostkey opens to its own tag key. -/
theorem Admitted.returns (hrun : Runs w₀ history w) (hi : (w₀ i).keypair.Inverts)
    (h : Admitted history j (w₀ i).keypair.hostkey keyBlock macBlock t block y) :
    (w₀ i).keypair.decrypt block = .ok y.localMac := by
  obtain ⟨key, hkey, hsealed⟩ := (h.accepted hrun).sealed
  exact hi key _ _ hkey hsealed

/-- Any number of registries without sessions do whatever they do, among any network. Each session
of a responder was created for two blocks, of which it holds what they seal, and its peer is the
owner of the hostkey that came with them; if the blocks are those that a registry gave for the
responder's hostkey, then it holds the keys of that registry's start. Each session of an initiator
was begun for the hostkey of its peer and was confirmed with a block, of which it holds what it
seals; if that block is one that a registry gave back when it created a session for the initiator's
hostkey, then it is the tag key of that session, which holds the same key if it was created for the
blocks that the initiator gave for it. -/
theorem provenance (hempty : ∀ i, (w₀ i).sessions = .empty)
    (hinverts : ∀ i, (w₀ i).keypair.Inverts) (hrun : Runs w₀ history w) :
    (∀ j t y, (w j).holdings t = some y → y.handshake = ⟨.responder, .established⟩ →
      ∃ hostkey keyBlock macBlock block mac,
        Admitted history j hostkey keyBlock macBlock t block y ∧ y.peer = .ofHostkey hostkey ∧
        (w₀ j).keypair.decrypt keyBlock = .ok y.sharedKey ∧
        (w₀ j).keypair.decrypt macBlock = .ok mac ∧ y.remoteMac? = some mac ∧
        ∀ i o, Began history i (w₀ j).keypair.hostkey o → Gave history i o keyBlock macBlock →
          y.sharedKey = o.sharedKey ∧ y.remoteMac? = some o.localMac) ∧
    ∀ i s x, (w i).holdings s = some x → x.handshake = ⟨.initiator, .established⟩ →
      ∃ hostkey o block mac, Began history i hostkey o ∧ o.session = s ∧ o.Holds hostkey x ∧
        Confirmed history i s block ∧ (w₀ i).keypair.decrypt block = .ok mac ∧
        x.remoteMac? = some mac ∧
        ∀ j keyBlock macBlock t y,
          Admitted history j (w₀ i).keypair.hostkey keyBlock macBlock t block y →
          y.peer = (w₀ i).keypair.identity ∧ x.remoteMac? = some y.localMac ∧
          (hostkey = (w₀ j).keypair.hostkey → Gave history i o keyBlock macBlock →
            x.sharedKey = y.sharedKey ∧ y.remoteMac? = some x.localMac) := by
  have hnone : ∀ i id, (w₀ i).holdings id = none := by
    intro i id
    rw [holdings, hempty]
    rfl
  constructor
  · intro j t y hy hstate
    cases hrun.origin hnone hy with
    | begun _ _ _ hrole =>
      rw [hstate] at hrole
      cases hrole
    | @accepted hostkey keyBlock macBlock block hadmitted =>
      have haccepted := hadmitted.accepted hrun
      obtain ⟨mac, hmac, hremote⟩ := haccepted.openedMac
      refine ⟨hostkey, keyBlock, macBlock, block, mac, hadmitted, haccepted.peer_eq,
        haccepted.opened, hmac, hremote, ?_⟩
      intro i o hbegan hgave
      exact hadmitted.holds hrun (hinverts j) hbegan hgave
  · intro i s x hx hstate
    cases hrun.origin hnone hx with
    | accepted _ hrole =>
      rw [hstate] at hrole
      cases hrole
    | @begun hostkey o hbegan hid hholds _ hconfirmed =>
      obtain ⟨block, mac, hcommit, hmac, hremote⟩ := hconfirmed (by rw [hstate])
      refine ⟨hostkey, o, block, mac, hbegan, hid, hholds, hcommit, hmac, hremote, ?_⟩
      intro j keyBlock macBlock t y hadmitted
      have hreturned := hadmitted.returns hrun (hinverts i)
      refine ⟨(hadmitted.accepted hrun).peer_eq, ?_, ?_⟩
      · rw [hremote, Except.ok.inj (hmac.symm.trans hreturned)]
      · rintro rfl hgave
        obtain ⟨hsecret, htag⟩ := hadmitted.holds hrun (hinverts j) hbegan hgave
        exact ⟨hholds.sharedKey_eq.trans hsecret.symm, htag.trans (by rw [hholds.localMac_eq])⟩

end Runs

/-- Of two registries that exchange a handshake, the one that has admitted holds a session that goes
back to the blocks of the other one. -/
theorem provenance_twoRegistries :
    (∀ i, (twoRegistries i).sessions = .empty) ∧ (∀ i, (twoRegistries i).keypair.Inverts) ∧
    ∃ history w t y hostkey keyBlock macBlock block, Runs twoRegistries history w ∧
      (w true).holdings t = some y ∧ y.handshake = ⟨.responder, .established⟩ ∧
      Admitted history true hostkey keyBlock macBlock t block y := by
  have hempty : ∀ i, (twoRegistries i).sessions = .empty := fun _ => rfl
  have hinverts : ∀ i, (twoRegistries i).keypair.Inverts := fun i => (twoRegistries_fit i).inverts
  obtain ⟨history, w, s, t, _, _, _, hrun, -, hresponded⟩ :=
    exists_handshake (show false ≠ true by decide) (twoRegistries_fit false)
      (twoRegistries_fit true) spare_twoRegistries
  obtain ⟨y, hy, haccepted⟩ := hresponded.holds hrun
  obtain ⟨hostkey, keyBlock, macBlock, block, -, hadmitted, -⟩ :=
    (provenance hempty hinverts hrun).1 true t y hy haccepted.handshake_eq
  exact ⟨hempty, hinverts, history, w, t, y, hostkey, keyBlock, macBlock, block, hrun, hy,
    haccepted.handshake_eq, hadmitted⟩

/-! ### Sessions in somebody's name -/

/-- Each responder's session whose peer is a registry was created for blocks that this registry gave
for the responder's hostkey. -/
def Solicited (w₀ : ι → SessionRegistry) (history : List (Event ι)) (w : ι → SessionRegistry) :
    Prop :=
  ∀ i j t y, (w j).holdings t = some y → y.handshake = ⟨.responder, .established⟩ →
    y.peer = (w₀ i).keypair.identity →
    ∃ hostkey keyBlock macBlock block o, Admitted history j hostkey keyBlock macBlock t block y ∧
      Began history i (w₀ j).keypair.hostkey o ∧ Gave history i o keyBlock macBlock

/-- Each initiator's session whose peer is a registry holds the tag key of a session that this
registry created for the blocks that the initiator gave. -/
def Reciprocated (w₀ : ι → SessionRegistry) (history : List (Event ι)) (w : ι → SessionRegistry) :
    Prop :=
  ∀ i j s x, (w i).holdings s = some x → x.handshake = ⟨.initiator, .established⟩ →
    x.peer = (w₀ j).keypair.identity →
    ∃ hostkey keyBlock macBlock t block y o, o.session = s ∧ Gave history i o keyBlock macBlock ∧
      Admitted history j hostkey keyBlock macBlock t block y ∧ x.remoteMac? = some y.localMac

/-- A message as long as a key can be sealed for a fit keypair. -/
theorem exists_seals {k : Keypair} (hk : k.Fit) {message : Bytes}
    (hlength : message.length = keyLength) :
    ∃ key block, Hostkey.parse k.hostkey = .ok key ∧ key.Seals message block := by
  obtain ⟨key, hkey, hsize⟩ := hk.taken
  have hfiller : ∀ x ∈ List.replicate (key.fillerLength message) (1 : UInt8), x ≠ 0 := by
    intro x hx
    rw [List.eq_of_mem_replicate hx]
    decide
  have hblock : ∃ block, key.encrypt (List.replicate (key.fillerLength message) 1) message =
      .ok block := by
    rw [Rsa.PublicKey.encrypt, if_neg (by omega)]
    exact ⟨_, rfl⟩
  obtain ⟨block, hblock⟩ := hblock
  exact ⟨key, block, hkey, _, List.length_replicate, hfiller, hblock⟩

/-- The second of two registries accepts blocks that anybody has sealed for it, in the name of the
first one. -/
def AcceptsMadeUp (e : Event Bool) : Prop :=
  e.node = true ∧ ∃ keyBlock macBlock key secret mac,
    e.part = .accept (twoRegistries false).keypair.hostkey keyBlock macBlock ∧
    Hostkey.parse (twoRegistries true).keypair.hostkey = .ok key ∧
    key.Seals secret keyBlock ∧ key.Seals mac macBlock

/-- The first of two registries starts a session with the second one, or confirms a session with a
block that anybody has sealed for it. -/
def ConfirmsMadeUp (e : Event Bool) : Prop :=
  e.node = false ∧ (e.part = .reserve (twoRegistries true).keypair.hostkey ∨
    (∃ o, e.part = .finish o) ∨ ∃ s block key mac, e.part = .commit s block ∧
      Hostkey.parse (twoRegistries false).keypair.hostkey = .ok key ∧ key.Seals mac block)

/-- A key that is made up. -/
def madeUpKey : Bytes := List.replicate keyLength 7

/-- Blocks that are made up for a responder are taken with the hostkey of somebody who has done
nothing. -/
theorem exists_unsolicited : ∃ history w, Runs twoRegistries history w ∧
    ¬ Solicited twoRegistries history w ∧ ∀ e ∈ history, AcceptsMadeUp e := by
  have hfit := twoRegistries_fit true
  obtain ⟨key, block, hkey, hblock⟩ := @exists_seals _ hfit madeUpKey rfl
  have hopens := hfit.inverts key _ _ hkey hblock
  have hacceptable : Acceptable (twoRegistries true).setting (twoRegistries false).keypair.hostkey
      block block :=
    ⟨(twoRegistries_fit false).taken, ⟨_, hopens, by decide⟩, _, hopens⟩
  obtain ⟨t, back, haccept⟩ := accept_done 0 hacceptable (spare_twoRegistries true)
  obtain ⟨y, hy, haccepted⟩ := accept_outcome haccept
  refine ⟨_, _, Runs.start.step true 0 (.accept (twoRegistries false).keypair.hostkey block block),
    ?_, ?_⟩
  · intro hsolicited
    obtain ⟨_, _, _, _, o, -, ⟨e, he, hnode, -⟩, -⟩ := hsolicited false true t y
      (by rw [update_self]; exact hy) haccepted.handshake_eq haccepted.peer_eq
    obtain rfl := List.mem_singleton.1 he
    cases hnode
  · intro e he
    obtain rfl := List.mem_singleton.1 he
    exact ⟨rfl, block, block, key, madeUpKey, madeUpKey, rfl, hkey, hblock, hblock⟩

/-- A block that is made up for an initiator confirms its session with somebody who has done
nothing. -/
theorem exists_unreciprocated : ∃ history w, Runs twoRegistries history w ∧
    ¬ Reciprocated twoRegistries history w ∧ ∀ e ∈ history, ConfirmsMadeUp e := by
  obtain ⟨key, hkey, hsize⟩ := (twoRegistries_fit true).taken
  obtain ⟨o, hreserve, hparse, hsecret, hmac⟩ :=
    reserve_done 0 ⟨key, hkey⟩ (spare_twoRegistries false)
  obtain rfl := Except.ok.inj (hkey.symm.trans hparse)
  obtain ⟨-, hreserved⟩ := reserve_outcome hreserve
  have hrun₁ := (Runs.start (w := twoRegistries)).step false 0
    (.reserve (twoRegistries true).keypair.hostkey)
  rw [hreserve] at hrun₁
  generalize (Part.run 0 (twoRegistries false) (.reserve
    (twoRegistries true).keypair.hostkey)).2 = r₁ at hrun₁ hreserved
  obtain ⟨keyBlock, macBlock, hfinish, hstarted⟩ := finish_done 0 hreserved rfl (by omega)
  have hrun₂ := hrun₁.next (update_self false _ twoRegistries) 0 (.finish o)
  rw [hfinish] at hrun₂
  generalize (Part.run 0 r₁ (.finish o)).2 = r₂ at hrun₂ hstarted
  -- nobody has seen the blocks; the block that comes back is made up
  have hfit := twoRegistries_fit false
  obtain ⟨back, block, hback, hblock⟩ := @exists_seals _ hfit madeUpKey rfl
  have hkeypair := congrArg Setting.keypair (hrun₂.setting false)
  rw [update_self] at hkeypair
  have hopens : r₂.keypair.decrypt block = .ok madeUpKey :=
    (congrArg (·.decrypt block) hkeypair).trans (hfit.inverts back _ _ hback hblock)
  have hcommit := commit_done 0 hstarted rfl hopens
  obtain ⟨x, mac, hx, -, hconfirmed⟩ := commit_outcome hcommit
  obtain rfl := Option.some.inj (hstarted.symm.trans hx)
  have hrun₃ := hrun₂.next (update_self false _ _) 0 (.commit o.session block)
  refine ⟨_, _, hrun₃, ?_, ?_⟩
  · intro hreciprocated
    obtain ⟨_, _, _, _, _, y, o', -, -, ⟨e, he, hnode, -⟩, -⟩ := hreciprocated false true o.session _
      (by rw [update_self]; exact hconfirmed) rfl rfl
    simp only [List.mem_cons, List.not_mem_nil, or_false] at he
    obtain rfl | rfl | rfl := he <;> cases hnode
  · intro e he
    simp only [List.mem_cons, List.not_mem_nil, or_false] at he
    obtain rfl | rfl | rfl := he
    · exact ⟨rfl, .inr (.inr ⟨_, block, back, madeUpKey, rfl, hback, hblock⟩)⟩
    · exact ⟨rfl, .inr (.inl ⟨o, rfl⟩)⟩
    · exact ⟨rfl, .inl rfl⟩

/-- Of two registries with different hostkeys, neither has to take part in a session in its name:
the other one takes blocks that are made up. -/
theorem not_solicited_not_reciprocated :
    (twoRegistries false).keypair.hostkey ≠ (twoRegistries true).keypair.hostkey ∧
    (∃ history w, Runs twoRegistries history w ∧ ¬ Solicited twoRegistries history w ∧
      ∀ e ∈ history, AcceptsMadeUp e) ∧
    ∃ history w, Runs twoRegistries history w ∧ ¬ Reciprocated twoRegistries history w ∧
      ∀ e ∈ history, ConfirmsMadeUp e :=
  ⟨by decide +kernel, exists_unsolicited, exists_unreciprocated⟩

end OnionTunnel.SessionRegistry
