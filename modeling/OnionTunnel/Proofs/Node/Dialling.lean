import OnionTunnel.Proofs.Node.Requests

/-!
# Hops among peers that do as they like

An owner that opens a hop sends out at most one message with the handshake. Either the owner's end
of a session with the hop is established then, or nothing is left of it; and a hop that was dialled
directly and has returned a link is told to drop it.
-/

namespace OnionTunnel.Node

open Network SessionRegistry Sealed

variable {n n' : Node} {route : List OpenHop} {hop : Hop} {s : Sent} {t : List Sent}
  {xs : List Session}

/-- Where what is for a hop is sent: to the hop, or to the first hop of the route to it. -/
def entrance : List OpenHop → Hop → Address
  | [], hop => hop.address
  | first :: _, _ => first.address

/-- A message takes a handshake to a hop: on its own to the hop that is dialled directly, or in a
cell on the link of the route's first hop, in a layer for each hop of the route. -/
def Dials (n : Node) (route : List OpenHop) (hop : Hop) (s : Sent) : Prop :=
  s.dest = entrance route hop ∧ ∃ handshake,
    match route with
    | [] => s.message = .incomingHandshake1 n.hostkey handshake
    | first :: _ => ∃ (xs : List Session) (cell command incoming : Bytes),
        s.message = .tunnelData first.link cell ∧
        (route.map (·.session)).map n.registry.holdings = xs.map some ∧
        Peels (xs.map Session.outward) cell command ∧
        (Message.tunnelExtend hop.address incoming).encode = .ok command ∧
        (Message.incomingHandshake1 n.hostkey handshake).encode = .ok incoming

/-- A node with the same hostkey and the same sessions with the route's hops dials alike. -/
theorem Dials.congr (h : Dials n' route hop s) (hhostkey : n'.hostkey = n.hostkey)
    (hheld : (route.map (·.session)).map n'.registry.holdings =
      (route.map (·.session)).map n.registry.holdings) : Dials n route hop s := by
  cases route with
  | nil =>
    obtain ⟨hdest, handshake, hmessage⟩ := h
    exact ⟨hdest, handshake, hhostkey ▸ hmessage⟩
  | cons first rest =>
    obtain ⟨hdest, handshake, xs, cell, command, incoming, hmessage, hxs, hpeels, hcommand,
      hincoming⟩ := h
    exact ⟨hdest, handshake, xs, cell, command, incoming, hmessage, hheld ▸ hxs, hpeels, hcommand,
      hhostkey ▸ hincoming⟩

/-- A command goes through a route in one cell, with a layer for each hop, or not at all. -/
theorem acts_relay {first : OpenHop} {rest : List OpenHop}
    (hxs : ((first :: rest).map (·.session)).map n.registry.holdings = xs.map some)
    (husable : ∀ x ∈ xs, x.Usable) (hother : first.address ≠ n.sessionService) (command : Bytes) :
    Acts n (relay (first :: rest) command) fun t res n' =>
      SameBut ((first :: rest).map (·.session)) n n' ∧
      n'.registry.holdings = n.registry.holdings ∧
      (t = [] ∧ (∃ e, res = .error e) ∨ ∃ s cell, t = [s] ∧ s.dest = first.address ∧
        s.message = .tunnelData first.link cell ∧ Peels (xs.map Session.outward) cell command) := by
  have horder : ∀ {n' : Node}, n'.registry.holdings = n.registry.holdings →
      (relayOrder (first :: rest)).map n'.registry.holdings = xs.reverse.map some := by
    intro n' hheld
    rw [hheld, relayOrder, List.map_reverse, hxs, List.map_reverse]
  have husable' : ∀ x ∈ xs.reverse, x.Usable := fun x hx => husable x (List.mem_reverse.1 hx)
  have hsame : ∀ {n n' : Node}, SameBut (relayOrder (first :: rest)) n n' →
      SameBut ((first :: rest).map (·.session)) n n' :=
    fun h => h.mono fun id hid => List.mem_reverse.1 hid
  refine Acts.bind (acts_encryptLayers (horder rfl) husable' command) ?_ ?_
  · rintro _ cell n₁ ⟨rfl, hsame₁, hheld₁, hpeels⟩
    have hpeels' : Peels (xs.map Session.outward) cell command := by
      have h := hpeels cell rfl
      rwa [List.map_reverse, List.reverse_reverse] at h
    refine Acts.bind (acts_sendCell (hsame₁.service ▸ hother) first.link cell) ?_ ?_
    · rintro _ reply _ ⟨rfl, s, rfl, hdest, hmessage⟩
      refine (acts_decryptLayers (horder hheld₁) husable' reply).mono ?_
      rintro _ res n' ⟨rfl, hsame₂, hheld₂⟩
      exact ⟨(hsame hsame₁).trans (hsame hsame₂), hheld₂.trans hheld₁,
        .inr ⟨s, cell, rfl, hdest, hmessage, hpeels'⟩⟩
    · rintro _ e _ ⟨rfl, s, rfl, hdest, hmessage⟩
      exact ⟨hsame hsame₁, hheld₁, .inr ⟨s, cell, rfl, hdest, hmessage, hpeels'⟩⟩
  · rintro t e n' ⟨rfl, hsame₁, hheld₁, -⟩
    exact ⟨hsame hsame₁, hheld₁, .inl ⟨rfl, e, rfl⟩⟩

/-- What has come of an attempt to reach a hop: it is dialled by one message, or a route to it does
not take the handshake. A hop that is dialled directly is reached exactly if the message has brought
back a link and a handshake. -/
structure Attempted (n : Node) (route : List OpenHop) (hop : Hop) (t : List Sent)
    (res : Except TunnelError (UInt32 × Bytes)) (n' : Node) : Prop where
  same : SameBut (route.map (·.session)) n n'
  held : n'.registry.holdings = n.registry.holdings
  sent : t = [] ∧ (∃ e, res = .error e) ∨ ∃ s, t = [s] ∧ Dials n route hop s ∧
    (route = [] → ∀ link returned, res = .ok (link, returned) ↔ s.Returns link returned)

theorem acts_reachHop (hxs : (route.map (·.session)).map n.registry.holdings = xs.map some)
    (husable : ∀ x ∈ xs, x.Usable) (hother : entrance route hop ≠ n.sessionService)
    (handshake : Bytes) : Acts n (reachHop hop route handshake) (Attempted n route hop) := by
  apply Acts.get
  cases route with
  | nil =>
    refine (acts_deliverHandshake hother n.hostkey handshake).mono ?_
    rintro _ res n' ⟨rfl, s, rfl, hdest, hmessage, hreturned⟩
    exact ⟨.refl _ _, rfl, .inr ⟨s, rfl, ⟨hdest, handshake, hmessage⟩, fun _ => hreturned⟩⟩
  | cons first rest =>
    have hunsent : ∀ e, Attempted n (first :: rest) hop [] (.error e) n :=
      fun e => ⟨.refl _ _, rfl, .inl ⟨rfl, e, rfl⟩⟩
    rw [if_neg (by simp)]
    apply acts_ofFrame
    · intro incoming hincoming
      apply acts_ofFrame
      · intro command hcommand
        have hsent : ∀ {s cell}, s.dest = first.address → s.message = .tunnelData first.link cell →
            Peels (xs.map Session.outward) cell command → Dials n (first :: rest) hop s :=
          fun {_ cell} hdest hmessage hpeels => ⟨hdest, handshake, xs, cell, command, incoming,
            hmessage, hxs, hpeels, hcommand, hincoming⟩
        refine Acts.bind (acts_relay hxs husable hother command) ?_ ?_
        · rintro t reply n₁ ⟨hsame, hheld, ⟨-, _, ⟨⟩⟩ | ⟨s, cell, rfl, hdest, hmessage, hpeels⟩⟩
          have hdials := hsent hdest hmessage hpeels
          apply acts_ofFrame
          · intro m _
            refine (acts_returnedHandshake m).mono ?_
            rintro _ res n' ⟨rfl, rfl, -⟩
            exact ⟨hsame, hheld, .inr ⟨s, rfl, hdials, nofun⟩⟩
          · exact fun e => ⟨hsame, hheld, .inr ⟨s, rfl, hdials, nofun⟩⟩
        · rintro t e n₁ ⟨hsame, hheld, ⟨rfl, -⟩ | ⟨s, cell, rfl, hdest, hmessage, hpeels⟩⟩
          · exact ⟨hsame, hheld, .inl ⟨rfl, e, rfl⟩⟩
          · exact ⟨hsame, hheld, .inr ⟨s, rfl, hsent hdest hmessage hpeels, nofun⟩⟩
      · exact fun e => hunsent _
    · exact fun e => hunsent _

/-! ### Opening a hop -/

/-- An open hop has an established session that the node has begun. -/
structure Holds (n : Node) (hop : Hop) (h : OpenHop) : Prop where
  address_eq : h.address = hop.address
  identity_eq : h.identity = hop.identity
  session : ∃ x, n.registry.holdings h.session = some x ∧
    x.handshake = ⟨.initiator, .established⟩ ∧ x.peer = hop.identity ∧ x.Usable

/-- A hop has been opened under a new number. -/
structure Opening (n : Node) (route : List OpenHop) (hop : Hop) (t : List Sent) (h : OpenHop)
    (n' : Node) : Prop where
  free : n.registry.sessions.get? h.session = none
  same : SameBut (h.session :: route.map (·.session)) n n'
  held : ∀ id, id ≠ h.session → n'.registry.holdings id = n.registry.holdings id
  holds : Holds n' hop h
  sent : ∃ s, t = [s] ∧ Dials n route hop s ∧
    (route = [] → ∃ handshake, s.Returns h.link handshake)

/-- What has been sent for a hop that was not opened: nothing, or a handshake. If the hop was
dialled directly and has returned a link all the same, it has been told to drop the link. -/
inductive Missed (n : Node) (route : List OpenHop) (hop : Hop) : List Sent → Prop
  | unsent : Missed n route hop []
  | unanswered {s : Sent} (dials : Dials n route hop s)
      (silent : route = [] → ∀ link handshake, ¬ s.Returns link handshake) : Missed n route hop [s]
  | declined {s d : Sent} {link : UInt32} {handshake : Bytes} (direct : route = [])
      (dials : Dials n route hop s) (returns : s.Returns link handshake)
      (drops : d.Drops hop.address link) : Missed n route hop [s, d]

/-- A hop was not opened, and no session is left of the attempt. -/
structure Abandoned (n : Node) (route : List OpenHop) (hop : Hop) (t : List Sent) (n' : Node) :
    Prop where
  missed : Missed n route hop t
  cleared : ∃ ids, (∀ id ∈ ids, n.registry.sessions.get? id = none) ∧
    SameBut (ids ++ route.map (·.session)) n n' ∧ Cleared ids n'

/-- A session is being negotiated with a hop: nothing else has changed, but that layers of the route
were in use. -/
structure Begun (n : Node) (route : List OpenHop) (id : UInt32) (n' : Node) : Prop where
  free : n.registry.sessions.get? id = none
  same : SameBut ([id] ++ route.map (·.session)) n n'
  held : ∀ id', id' ≠ id → n'.registry.holdings id' = n.registry.holdings id'

section Negotiation
variable {n₁ : Node} {id link : UInt32} {x : Session} {mac handshake : Bytes}

theorem Begun.start (hfree : n.registry.sessions.get? id = none) (hsame : SameBut [id] n n₁) :
    Begun n route id n₁ where
  free := hfree
  same := hsame.mono (List.subset_append_left _ _)
  held _ hne := hsame.registry.holdings_eq fun hmem => hne (List.mem_singleton.1 hmem)

theorem Begun.next (h : Begun n route id n₁) (hsame : SameBut [id] n₁ n') : Begun n route id n' where
  free := h.free
  same := h.same.trans (hsame.mono (List.subset_append_left _ _))
  held id' hne := by
    rw [hsame.registry.holdings_eq fun hmem => hne (List.mem_singleton.1 hmem), h.held id' hne]

theorem Begun.through (h : Begun n route id n₁) (hsame : SameBut (route.map (·.session)) n₁ n')
    (hheld : n'.registry.holdings = n₁.registry.holdings) : Begun n route id n' where
  free := h.free
  same := h.same.trans (hsame.mono (List.subset_append_right _ _))
  held id' hne := by rw [hheld, h.held id' hne]

theorem holdings_ne_none {ids : List UInt32}
    (hxs : ids.map n.registry.holdings = xs.map some) (hid : id ∈ ids) :
    n.registry.holdings id ≠ none := by
  intro hnone
  have hsome : n.registry.holdings id ∈ xs.map some := hxs ▸ List.mem_map_of_mem hid
  simp [hnone] at hsome

/-- The sessions with the hops of the route are not the one that is negotiated. -/
theorem Begun.held_route (h : Begun n route id n')
    (hxs : (route.map (·.session)).map n.registry.holdings = xs.map some) :
    (route.map (·.session)).map n'.registry.holdings =
      (route.map (·.session)).map n.registry.holdings := by
  apply List.map_congr_left
  intro id' hmem
  apply h.held
  rintro rfl
  exact holdings_ne_none hxs hmem (get?_eq_none_iff.1 h.free)

/-- Once the session is closed, the attempt is abandoned. -/
theorem Begun.acts_abandon (h : Begun n route id n₁) {α : Type} {e : TunnelError}
    {Q : List Sent → Except TunnelError α → Node → Prop} (hmissed : Missed n route hop t)
    (hQ : ∀ n', Abandoned n route hop t n' → Q [] (.error e) n') :
    Acts n₁ (do closeSession id; throw e) Q := by
  refine Acts.after (comes_closeSession id) ?_
  rintro _ _ n' ⟨rfl, hsame, hcleared⟩
  apply Acts.throw
  apply hQ
  exact ⟨hmissed, [id], by simpa using h.free, (h.next hsame).same, hcleared⟩

/-- Once the session is confirmed, the hop is open. -/
theorem Begun.opening (h : Begun n route id n₁) {F : Keypair → Prop}
    (hoffered : Offered F hop.hostkey x handshake)
    (hx : n₁.registry.holdings id = some (confirmed x mac)) (hdials : Dials n route hop s)
    (hreturns : route = [] → ∃ handshake, s.Returns link handshake) :
    Opening n route hop [s] ⟨id, link, hop.address, hop.identity⟩
      (n₁.updateDirectory fun d =>
        (d.rememberPeer hop.identity hop.address).bindSession id hop.identity) := by
  have hbound : SameBut [id] n₁ (n₁.updateDirectory fun d =>
      (d.rememberPeer hop.identity hop.address).bindSession id hop.identity) := by
    apply SameBut.updateDirectory
    intro d id' hid'
    have hne : id' ≠ id := fun h => hid' (h ▸ List.mem_cons_self)
    rw [PeerDirectory.identityOf?_bindSession_of_ne _ _ hne, PeerDirectory.identityOf?_rememberPeer]
  have hopen := h.next hbound
  constructor
  case free => exact hopen.free
  case same => exact hopen.same
  case held => exact hopen.held
  case holds =>
    refine ⟨rfl, rfl, confirmed x mac, ?_, rfl, hoffered.peer_eq, usable_confirmed hoffered mac⟩
    rw [holdings_updateDirectory]
    exact hx
  case sent => exact ⟨s, rfl, hdials, hreturns⟩

end Negotiation

/-- A hop is opened, or the attempt is abandoned. -/
theorem acts_openHop (hxs : (route.map (·.session)).map n.registry.holdings = xs.map some)
    (husable : ∀ x ∈ xs, x.Usable) (hother : entrance route hop ≠ n.sessionService) :
    Acts n (openHop hop route) fun t res n' =>
      (∃ h, res = .ok h ∧ Opening n route hop t h n') ∨
      (∃ e, res = .error e) ∧ Abandoned n route hop t n' := by
  refine Acts.bind (acts_startSession hop.hostkey) ?_ ?_
  · rintro _ ⟨id, handshake⟩ n₁
      ⟨rfl, ⟨_, _, x, ⟨⟩, hfree, hsame₁, hx, hoffered⟩ | ⟨⟨_, ⟨⟩⟩, -⟩⟩
    have hbegun : Begun n route id n₁ := .start hfree hsame₁
    have hheld := hbegun.held_route hxs
    refine Acts.attempt (acts_reachHop (hheld.trans hxs) husable (hsame₁.service ▸ hother)
      handshake) ?_
    rintro t₂ res n₂ ⟨hsame₂, hheld₂, hsent⟩
    have hbegun₂ := hbegun.through hsame₂ hheld₂
    have hdials : ∀ {s}, Dials n₁ route hop s → Dials n route hop s :=
      fun h => h.congr hsame₁.hostkey_eq hheld
    cases res with
    | error e =>
      have hmissed : Missed n route hop t₂ := by
        obtain ⟨rfl, -⟩ | ⟨s, rfl, hs, hreturned⟩ := hsent
        · exact .unsent
        · apply Missed.unanswered (hdials hs)
          intro hroute link returned hreturns
          cases (hreturned hroute link returned).2 hreturns
      refine hbegun₂.acts_abandon hmissed ?_
      intro n' habandoned
      rw [List.append_nil]
      exact .inr ⟨⟨e, rfl⟩, habandoned⟩
    | ok reached =>
      obtain ⟨link, returned⟩ := reached
      obtain ⟨-, _, ⟨⟩⟩ | ⟨s, rfl, hs, hreturned⟩ := hsent
      rw [← hheld₂] at hx
      refine Acts.attempt (acts_confirmSession hx hoffered.handshake_eq returned) ?_
      rintro _ res n₃ ⟨rfl, hsame₃, ⟨mac, rfl, hx'⟩ | ⟨e, rfl⟩⟩
      · apply Acts.change
        apply Acts.pure
        rw [List.append_nil]
        refine .inl ⟨_, rfl, (hbegun₂.next hsame₃).opening hoffered hx' (hdials hs) ?_⟩
        intro hroute
        exact ⟨returned, (hreturned hroute link returned).1 rfl⟩
      · have hbegun₃ := hbegun₂.next hsame₃
        cases route with
        | nil =>
          refine Acts.after (comes_dropLink (hbegun₃.same.service ▸ hother) link) ?_
          rintro _ _ _ ⟨rfl, d, rfl, hdrops⟩
          refine hbegun₃.acts_abandon
            (.declined rfl (hdials hs) ((hreturned rfl link returned).1 rfl) hdrops) ?_
          exact fun n' habandoned => .inr ⟨⟨e, rfl⟩, habandoned⟩
        | cons first rest =>
          refine hbegun₃.acts_abandon (.unanswered (hdials hs) nofun) ?_
          exact fun n' habandoned => .inr ⟨⟨e, rfl⟩, habandoned⟩
  · rintro _ e n' ⟨rfl, ⟨_, _, _, ⟨⟩, -⟩ | ⟨-, hsame⟩⟩
    exact .inr ⟨⟨e, rfl⟩, .unsent, [], by simp, hsame.mono (List.nil_subset _), by simp [Cleared]⟩

end OnionTunnel.Node
