import OnionTunnel.Proofs.Node.Handshakes

/-!
# Opening hops

Once a hop has accepted a handshake, the owner's end is confirmed and the two ends are paired. If
the hop cannot be reached, the owner's end is closed and the books are as they were.
-/

namespace OnionTunnel.Network

open Function SessionRegistry

variable {n : Nat} {S : Setting n} {V : Network n → Prop} {now : Instant} {depth : Nat}
  {i : Fin n} {b b' : Books n} {legs : List (Leg n)}

/-- The session that a session service has accepted in person is no end of the leg. -/
def Loose (b b' : Books n) (i : Fin n) (l : Leg n) : Prop :=
  ∃ j, (b j).session l.hop.link = none ∧ (b' j).session l.hop.link ≠ none ∧
    (j, l.hop.link) ∉ l.ends i

/-- A new leg stands on the books after a route. -/
structure Opens (S : Setting n) (b : Books n) (i : Fin n) (legs : List (Leg n)) (hop : Hop)
    (l : Leg n) (b' : Books n) : Prop where
  address_eq : l.hop.address = hop.address
  identity_eq : l.hop.identity = hop.identity
  dialled_eq : l.dialled = dialled legs hop.address
  last : ∀ l₀, legs.getLast? = some l₀ → l₀.far? ≠ none
  short : legs.length ≤ 255
  stands : Held S b' i l
  linked : Linked S b' (S.identity i) (legs ++ [l])
  fresh : ∀ j x, (j, x) ∈ l.ends i → (b j).session x = none
  nodup : (l.ends i).Nodup
  session : ∀ j x, (b j).session x ≠ none → (b' j).session x = (b j).session x
  tidy : l.far? ≠ none → ∀ j x, (j, x) ∉ l.ends i → (b' j).session x = (b j).session x
  loose : l.far? = none → Loose b b' i l
  link : ∀ j x, (j, x) ∉ l.ends i → (j, x) ∉ farEnds legs → (b' j).link x = (b j).link x
  near : (b' i).link l.hop.session = (b i).link l.hop.session
  slot : ∀ j, (b' j).slot = (b j).slot
  handed : ∀ j, (b' j).handed = (b j).handed

/-- What is sealed for a hop opens faithfully at the node where the hop is dialled. -/
def Trusted (S : Setting n) (V : Network n → Prop) (now : Instant) (i : Fin n) (hostkey : Bytes)
    (dest : Address) : Prop :=
  ∀ j, S.serviceAt? dest = some ⟨j, .peers⟩ →
    Opener S V now i hostkey (S.node j).registry.keypair

/-- The two ends that a handshake establishes are paired. -/
theorem paired_of_answered {F : Keypair → Prop} {j : Fin n}
    {hostkey hostkey' handshake returned : Bytes} {x y : Session}
    (hoffered : Offered F hostkey x handshake)
    (hanswered : Answered (S.node j).registry hostkey' handshake y returned)
    (hfaithful : F (S.node j).registry.keypair) :
    Session.Paired
      { x with handshake := ⟨.initiator, .established⟩, remoteMac? := some y.localMac } y := by
  obtain ⟨keyBlock, macBlock, hblocks, -, hopen⟩ := hoffered.blocks
  obtain ⟨_, _, mac, hblocks', hsecret, hmac, hremote⟩ := hanswered.opened
  rw [hblocks] at hblocks'
  obtain ⟨⟩ := Except.ok.inj hblocks'
  obtain ⟨hkey, hmac⟩ := hopen _ hfaithful _ _ hsecret hmac
  constructor
  · simp [Session.outward, Session.inward, hremote, hkey, hmac]
  · simp [Session.outward, Session.inward, hkey]

/-- A waiting session on the books leaves a route as it was. -/
theorem Route.setSession (hroute : Route S b i legs) {id : UInt32}
    (hfree : (b i).session id = none) (s? : Option Session) :
    Route S (b.setSession i id s?) i legs where
  linked := hroute.linked.congr fun _ _ _ => by simp
  held l hl := by
    refine (hroute.held l hl).congr ?_
    intro j x hend
    have hne : (j, x) ≠ (i, id) := by
      rintro ⟨⟩
      exact (hroute.held l hl).session_ne_none hend hfree
    simp only [Books.setSession_apply, if_neg hne]
  first := hroute.first

/-- The owner's end of a session once it is confirmed. -/
def confirmed (x : Session) (mac : Bytes) : Session :=
  { x with handshake := ⟨.initiator, .established⟩, remoteMac? := some mac }

/-- The confirmed end can carry layers. -/
theorem usable_confirmed {F : Keypair → Prop} {hostkey handshake : Bytes} {x : Session}
    (h : Offered F hostkey x handshake) (mac : Bytes) : (confirmed x mac).Usable := by
  have hlength : Aes.validLength (confirmed x mac).sharedKey.length :=
    (congrArg Aes.validLength h.length_sharedKey).trans (by decide)
  exact ⟨rfl, hlength, rfl⟩

/-- The end of a session that has been accepted can carry layers. -/
theorem usable_of_answered {R : SessionRegistry.Setting} {hostkey handshake returned : Bytes}
    {y : Session} (h : Answered R hostkey handshake y returned) : y.Usable := by
  obtain ⟨_, _, mac, -, -, -, hremote⟩ := h.opened
  refine ⟨?_, h.valid, ?_⟩
  · rw [h.handshake_eq]
  · simp [Session.inward, hremote]

/-- The leg of a hop that has joined a route. -/
def legOf (hop : Hop) (dest : Address) (id link : UInt32) (near : Session) (s : ServiceOf n)
    (y : Session) : Leg n where
  hop := ⟨id, link, hop.address, hop.identity⟩
  dialled := dest
  near := near
  far? := if s.service = .peers then some ⟨s.owner, y⟩ else none

/-- The books once a hop has joined a route: the session `x` under `id` at the owner, the session
`y` under `link` where a service has answered, with a link if peers have, and the last hop of the
route going on to it. -/
structure Extended (S : Setting n) (b : Books n) (i : Fin n) (legs : List (Leg n)) (dest : Address)
    (id : UInt32) (x : Session) (s : ServiceOf n) (link : UInt32) (y : Session) (b' : Books n) :
    Prop where
  free : (b i).session id = none
  fresh : (b s.owner).session link = none
  apart : (s.owner, link) ≠ (i, id)
  session : ∀ j z, (b' j).session z =
    if (j, z) = (i, id) then some x
    else if (j, z) = (s.owner, link) then some y else (b j).session z
  link_of_ne : ∀ j z, (s.service = .peers → (j, z) ≠ (s.owner, link)) →
    legs.getLast?.bind Leg.farEnd? ≠ some (j, z) → (b' j).link z = (b j).link z
  link_self : s.service = .peers → (b' s.owner).link link = some ⟨S.identity i, none⟩
  link_last : ∀ j z, legs.getLast?.bind Leg.farEnd? = some (j, z) →
    (b' j).link z = some ⟨S.identity i, some ⟨dest, link⟩⟩
  slot : ∀ j, (b' j).slot = (b j).slot
  handed : ∀ j, (b' j).handed = (b j).handed

/-- No free number is that of the last hop of a route. -/
theorem Route.last_ne (hroute : Route S b i legs) {j : Fin n} {z : UInt32}
    (hnone : (b j).session z = none) : legs.getLast?.bind Leg.farEnd? ≠ some (j, z) := by
  intro hend
  obtain ⟨l, hl, hend⟩ := Option.bind_eq_some_iff.1 hend
  exact (hroute.held l (List.mem_of_getLast? hl)).session_ne_none (by simp [Leg.ends, hend]) hnone

/-- A hop that has joined after a session was put under a free number. -/
theorem Joins.extended (hroute : Route S b i legs) {dest : Address} {id : UInt32} {x : Session}
    {hostkey handshake : Bytes} {s : ServiceOf n} {link : UInt32} {y : Session} {returned : Bytes}
    (hfree : (b i).session id = none)
    (h : Joins S (b.setSession i id (some x)) i legs dest hostkey handshake s link y returned b')
    (x' : Session) :
    Extended S b i legs dest id x' s link y (b'.setSession i id (some x')) := by
  have hfresh : (b s.owner).session link = none ∧ (s.owner, link) ≠ (i, id) := by
    have hfresh := h.accepts.fresh
    simp only [Books.setSession_apply] at hfresh
    split at hfresh
    · cases hfresh
    · next hne => exact ⟨hfresh, hne⟩
  constructor
  case free => exact hfree
  case fresh => exact hfresh.1
  case apart => exact hfresh.2
  case session =>
    intro j z
    rw [h.books_eq]
    simp only [Books.setSession_apply, Books.session_joined, Books.session_opened]
    split
    · rfl
    · rfl
  case link_of_ne =>
    intro j z hne hend
    rw [h.books_eq]
    simp only [Books.setSession_apply, Books.link_joined_of_ne _ _ _ hend,
      Books.link_opened_of_ne _ _ _ _ _ hne]
  case link_self =>
    intro hpeers
    rw [h.books_eq]
    simp only [Books.setSession_apply, Books.link_joined_of_ne _ _ _ (hroute.last_ne hfresh.1),
      Books.link_opened_self _ _ _ _ _ hpeers]
  case link_last =>
    intro j z hend
    rw [h.books_eq]
    simp only [Books.setSession_apply, Books.link_joined_self _ _ _ hend]
  case slot =>
    intro j
    rw [h.books_eq]
    simp
  case handed =>
    intro j
    rw [h.books_eq]
    simp

section Extensions
variable {hop : Hop} {dest : Address} {id link : UInt32} {x y : Session} {s : ServiceOf n}

/-- What is no end of the new leg was not touched at either end. -/
theorem ne_of_not_mem_ends {j : Fin n} {z : UInt32}
    (h : (j, z) ∉ (legOf hop dest id link x s y).ends i) :
    (j, z) ≠ (i, id) ∧ (s.service = .peers → (j, z) ≠ (s.owner, link)) := by
  refine ⟨fun heq => h ?_, fun hpeers heq => h ?_⟩
  · simp [Leg.ends, legOf, heq]
  · simp [Leg.ends, legOf, Leg.farEnd?, hpeers, heq]

/-- The new leg stands if its two ends are established and paired. -/
theorem Extended.held (h : Extended S b i legs dest id x s link y b')
    (hx : x.handshake = ⟨.initiator, .established⟩) (husable : x.Usable)
    (hfar : s.service = .peers → y.handshake = ⟨.responder, .established⟩ ∧
      y.peer = S.identity i ∧ y.Usable ∧ x.Paired y) :
    Held S b' i (legOf hop dest id link x s y) := by
  refine ⟨⟨(h.session i id).trans (if_pos rfl), hx, husable⟩, ?_⟩
  intro f hf
  simp only [legOf] at hf
  split at hf
  · next hpeers =>
    obtain rfl := Option.some.inj hf
    obtain ⟨hy, hpeer, husable', hpaired⟩ := hfar hpeers
    exact ⟨(h.session s.owner link).trans ((if_neg h.apart).trans (if_pos rfl)), hy, hpeer,
      husable', hpaired⟩
  · cases hf

/-- The last hop of the route goes on to the new leg. -/
theorem Extended.linked (h : Extended S b i legs dest id x s link y b') (hroute : Route S b i legs)
    (hplace : S.serviceAt? dest = some s) (hkind : s.service ≠ .clients)
    (hlast : ∀ l, legs.getLast? = some l → l.far? ≠ none) :
    Linked S b' (S.identity i) (legs ++ [legOf hop dest id link x s y]) := by
  refine hroute.linked.append hlast ?_ ?_ ?_
  · unfold Reached
    obtain ⟨j, _ | _ | _⟩ := s
    · exact ⟨rfl, j, hplace⟩
    · exact (hkind rfl).elim
    · exact ⟨hplace, h.link_self rfl⟩
  · intro l f hl hf
    exact h.link_last f.node l.hop.link (by simp [hl, Leg.farEnd?, hf])
  · intro j z hmem hend
    obtain ⟨l, hl, hmem⟩ := List.mem_filterMap.1 hmem
    refine h.link_of_ne j z (fun _ => ?_) hend
    rintro ⟨⟩
    exact (hroute.held l hl).session_ne_none (by simp [Leg.ends, hmem]) h.fresh

theorem Extended.free_of_mem_ends (h : Extended S b i legs dest id x s link y b') {j : Fin n}
    {z : UInt32} (hend : (j, z) ∈ (legOf hop dest id link x s y).ends i) :
    (b j).session z = none := by
  obtain heq | hend := List.mem_cons.1 hend
  · obtain ⟨rfl, rfl⟩ := Prod.mk.inj heq
    exact h.free
  · simp only [Leg.farEnd?, legOf] at hend
    split at hend
    · simp only [Option.map_some, Option.toList_some, List.mem_singleton, Prod.mk.injEq] at hend
      obtain ⟨rfl, rfl⟩ := hend
      exact h.fresh
    · cases hend

theorem Extended.nodup (h : Extended S b i legs dest id x s link y b') :
    ((legOf hop dest id link x s y).ends i).Nodup := by
  simp only [Leg.ends, Leg.farEnd?, legOf]
  split
  · simpa using fun heq heq' => h.apart (by rw [heq, heq'])
  · simp

/-- A session service that has answered in person holds a session that is no end of the leg. -/
theorem Extended.loose (h : Extended S b i legs dest id x s link y b')
    (hfar : (legOf hop dest id link x s y).far? = none) :
    Loose b b' i (legOf hop dest id link x s y) := by
  refine ⟨s.owner, h.fresh, ?_, ?_⟩
  · rw [h.session, show (legOf hop dest id link x s y).hop.link = link from rfl, if_neg h.apart,
      if_pos rfl]
    exact Option.some_ne_none y
  · intro hend
    obtain heq | hend := List.mem_cons.1 hend
    · exact h.apart heq
    · simp [Leg.farEnd?, hfar] at hend

end Extensions

theorem opens_of_joins (hroute : Route S b i legs) {hop : Hop}
    (htrusted : Trusted S V now i hop.hostkey (dialled legs hop.address)) {id : UInt32}
    {x : Session} {handshake : Bytes} (hfree : (b i).session id = none)
    (hoffered : Offered (Opener S V now i hop.hostkey) hop.hostkey x handshake) {hostkey : Bytes}
    (hhostkey : hostkey = (S.node i).registry.keypair.hostkey) {s : ServiceOf n} {link : UInt32}
    {y : Session} {returned : Bytes}
    (hjoins : Joins S (b.setSession i id (some x)) i legs (dialled legs hop.address) hostkey
      handshake s link y returned b') (hshort : legs.length ≤ 255) :
    Opens S b i legs hop
      (legOf hop (dialled legs hop.address) id link (confirmed x y.localMac) s y)
      (b'.setSession i id (some (confirmed x y.localMac))) := by
  have hextended := hjoins.extended hroute hfree (confirmed x y.localMac)
  have hanswered := hjoins.accepts.answered
  have hplace := hjoins.accepts.place
  constructor
  case address_eq => rfl
  case identity_eq => rfl
  case dialled_eq => rfl
  case last => exact hjoins.last
  case short => exact hshort
  case stands =>
    refine hextended.held rfl (usable_confirmed hoffered y.localMac) fun hpeers => ?_
    refine ⟨hanswered.handshake_eq, ?_, usable_of_answered hanswered, ?_⟩
    · rw [hanswered.peer_eq, hhostkey, Setting.identity]
    · apply paired_of_answered hoffered hanswered (htrusted s.owner _)
      rw [hplace, ← hpeers]
  case linked => exact hextended.linked hroute hplace hjoins.accepts.kind hjoins.last
  case fresh => exact fun j z hend => hextended.free_of_mem_ends hend
  case nodup => exact hextended.nodup
  case session =>
    intro j z hsome
    rw [hextended.session, if_neg, if_neg]
    · rintro ⟨⟩
      exact hsome hextended.fresh
    · rintro ⟨⟩
      exact hsome hfree
  case tidy =>
    intro hproper j z hnot
    obtain ⟨hne, hne'⟩ := ne_of_not_mem_ends hnot
    have hpeers : s.service = .peers := by
      by_contra hother
      exact hproper (by simp [legOf, hother])
    rw [hextended.session, if_neg hne, if_neg (hne' hpeers)]
  case loose => exact hextended.loose
  case link =>
    intro j z hnot hmem
    apply hextended.link_of_ne j z (ne_of_not_mem_ends hnot).2
    intro hend
    obtain ⟨l, hl, hend⟩ := Option.bind_eq_some_iff.1 hend
    exact hmem (List.mem_filterMap.2 ⟨l, List.mem_of_getLast? hl, hend⟩)
  case near =>
    exact hextended.link_of_ne i id (fun _ => hextended.apart.symm) (hroute.last_ne hfree)
  case slot => exact hextended.slot
  case handed => exact hextended.handed

/-- Why a hop may not have been opened after a route. -/
def Unopened (S : Setting n) (V : Network n → Prop) (b : Books n) (i : Fin n)
    (legs : List (Leg n)) (hop : Hop) : Prop :=
  (hop.hostkey.length ≤ maxPayload → Startable hop.hostkey → Spent S V b i) ∨
  ∃ id x handshake, (b i).session id = none ∧
    Offered (fun _ => False) hop.hostkey x handshake ∧
    Unreached S V (b.setSession i id (some x)) legs (dialled legs hop.address)
      (S.node i).registry.keypair.hostkey handshake

/-- A hop is opened after a route, or nothing is left of the attempt. -/
theorem does_openHop (hS : S.Own) (hinverts : (S.node i).registry.keypair.Inverts)
    (hroute : Route S b i legs) {hop : Hop} (hplain : S.Unscripted (dialled legs hop.address))
    (htrusted : Trusted S V now i hop.hostkey (dialled legs hop.address)) :
    Does S V now (depth + 2 + legs.length) i b (Node.openHop hop (legs.map (·.hop))) fun res b' =>
      (∃ l, res = .ok l.hop ∧ Opens S b i legs hop l b') ∨
      (∃ e, res = .error e) ∧ b' = b ∧ Unopened S V b i legs hop := by
  have hdepth : depth + 2 + legs.length = depth + legs.length + 1 + 1 := by omega
  rw [hdepth]
  refine (does_startSession hS hop.hostkey).bind ?_ ?_
  · rintro ⟨id, handshake⟩ _ (⟨_, _, x, ⟨⟩, hfree, rfl, hoffered⟩ | ⟨⟨_, ⟨⟩⟩, _⟩)
    rw [← hdepth]
    apply Does.attempt (does_reachHop hS (hroute.setSession hfree _) hplain handshake rfl)
    rintro _ b₂ (⟨link, returned, rfl, s, y, hjoins, hshort⟩ |
      ⟨⟨e, rfl⟩, rfl, hunreached⟩)
    · have hopens := opens_of_joins hroute htrusted hfree hoffered rfl hjoins hshort
      have hx : (b₂ i).session id = some x := by
        have hne : (i, id) ≠ (s.owner, link) := by
          rintro ⟨⟩
          simpa using hjoins.accepts.fresh
        rw [hjoins.books_eq, Books.session_joined, Books.session_opened, if_neg hne]
        simp
      obtain ⟨key, block, hkey, hseals, hblock⟩ := hjoins.accepts.answered.sealed
      have hmac := hinverts key y.localMac block hkey hseals
      rw [hdepth]
      refine Does.attempt (does_confirmSession hS hx hoffered.handshake_eq
        hjoins.accepts.answered.length_le hblock hmac) ?_
      rintro _ _ ⟨rfl, rfl⟩
      refine Does.bind (does_updateDirectory _) ?_ ?_
      · rintro _ _ ⟨-, rfl⟩
        exact Does.pure (.inl ⟨_, rfl, hopens⟩)
      · rintro _ _ ⟨⟨⟩, _⟩
    · rw [hdepth]
      apply Does.after (leads_closeSession hS id)
      rintro _ _ rfl
      exact Does.throw (.inr ⟨⟨e, rfl⟩, Books.setSession_setSession_none hfree _,
        .inr ⟨id, x, handshake, hfree, hoffered.mono fun _ => False.elim, hunreached⟩⟩)
  · rintro e _ (⟨_, _, _, ⟨⟩, _⟩ | ⟨-, rfl, hreason⟩)
    exact .inr ⟨⟨e, rfl⟩, rfl, .inl hreason⟩

end OnionTunnel.Network
