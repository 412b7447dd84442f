import OnionTunnel.Proofs.Node.Relaying

/-!
# Handshakes with hops

A hop that accepts a handshake holds a session and a link, and the hop before it, if there is one,
goes on to it from then on. Nothing is left of a handshake that is refused.
-/

namespace OnionTunnel

open Function

variable {n : Nat}

namespace Books

/-- The books after a service has accepted a session; peers note a link, too. -/
def opened (b : Books n) (s : ServiceOf n) (id : UInt32) (y : Session) (peer : Identity) : Books n :=
  match s.service with
  | .peers => (b.setSession s.owner id (some y)).setLink s.owner id (some ⟨peer, none⟩)
  | _ => b.setSession s.owner id (some y)

/-- The books after the last hop of a route has been told where the route goes on. -/
def joined (b : Books n) (legs : List (Leg n)) (peer : Identity) (next : Downstream) : Books n :=
  match legs.getLast?.bind Leg.farEnd? with
  | some (j, id) => b.setLink j id (some ⟨peer, some next⟩)
  | none => b

section Entries
variable (b : Books n) (s : ServiceOf n) (id : UInt32) (y : Session) (peer : Identity)
  (legs : List (Leg n)) (next : Downstream) (j : Fin n) (x : UInt32)

@[simp] theorem session_opened : (b.opened s id y peer j).session x =
    if (j, x) = (s.owner, id) then some y else (b j).session x := by
  obtain ⟨_, _ | _ | _⟩ := s <;> simp [opened]

@[simp] theorem slot_opened : (b.opened s id y peer j).slot = (b j).slot := by
  obtain ⟨_, _ | _ | _⟩ := s <;> simp [opened]

@[simp] theorem handed_opened : (b.opened s id y peer j).handed = (b j).handed := by
  obtain ⟨_, _ | _ | _⟩ := s <;> simp [opened]

@[simp] theorem session_joined : (b.joined legs peer next j).session = (b j).session := by
  cases h : legs.getLast?.bind Leg.farEnd? <;> simp [joined, h]

@[simp] theorem slot_joined : (b.joined legs peer next j).slot = (b j).slot := by
  cases h : legs.getLast?.bind Leg.farEnd? <;> simp [joined, h]

@[simp] theorem handed_joined : (b.joined legs peer next j).handed = (b j).handed := by
  cases h : legs.getLast?.bind Leg.farEnd? <;> simp [joined, h]

variable {j x}

theorem link_opened_of_ne (h : s.service = .peers → (j, x) ≠ (s.owner, id)) :
    (b.opened s id y peer j).link x = (b j).link x := by
  obtain ⟨_, _ | _ | _⟩ := s
  · simp only [opened, setSession_apply]
  · simp only [opened, setSession_apply]
  · simp only [opened, setLink_apply, setSession_apply, if_neg (h rfl)]

theorem link_opened_self (h : s.service = .peers) :
    (b.opened s id y peer s.owner).link id = some ⟨peer, none⟩ := by
  simp [opened, h]

variable {legs}

theorem link_joined_of_ne (h : legs.getLast?.bind Leg.farEnd? ≠ some (j, x)) :
    (b.joined legs peer next j).link x = (b j).link x := by
  cases hend : legs.getLast?.bind Leg.farEnd? with
  | none => simp [joined, hend]
  | some e =>
    have hne : (j, x) ≠ e := fun heq => h (heq ▸ hend)
    simp only [joined, hend, setLink_apply, if_neg hne]

theorem link_joined_self (h : legs.getLast?.bind Leg.farEnd? = some (j, x)) :
    (b.joined legs peer next j).link x = some ⟨peer, some next⟩ := by
  simp [joined, h]

end Entries

end Books

namespace Network

open SessionRegistry

variable {S : Setting n} {V : Network n → Prop} {now : Instant} {depth : Nat}
  {i : Fin n} {b : Books n}

/-- A change of one link in a node's table. -/
theorem does_insertLink {f : Node → LinkTable} (id : UInt32) (l : Link)
    (h : ∀ node : Node, node.row = b i → (f node).get? = update (b i).link id (some l)) :
    Does S V now depth i b (modify fun node => { node with links := f node })
      fun res b' => res = .ok ⟨⟩ ∧ b' = b.setLink i id (some l) := by
  refine Does.change fun node hset hrow => ⟨hset, rfl, ?_⟩
  rw [Books.setLink]
  refine congrArg (update b i) (Row.ext ?_ (h node hrow) ?_ ?_)
  all_goals rw [← hrow]; rfl

theorem does_updateDirectory (f : PeerDirectory → PeerDirectory) :
    Does S V now depth i b (modify (Node.updateDirectory f)) fun res b' => res = .ok ⟨⟩ ∧ b' = b := by
  refine Does.change fun node hset hrow => ?_
  obtain ⟨hset', hrow'⟩ := Node.updateDirectory_setting f node
  exact ⟨hset'.trans hset, rfl, by rw [hrow', hrow, update_eq_self]⟩

/-- A service at an address has accepted a handshake. -/
structure Accepts (S : Setting n) (b : Books n) (dest : Address) (hostkey handshake : Bytes)
    (s : ServiceOf n) (link : UInt32) (y : Session) (returned : Bytes) : Prop where
  place : S.serviceAt? dest = some s
  kind : s.service ≠ .clients
  fresh : (b s.owner).session link = none
  answered : Answered (S.node s.owner).registry hostkey handshake y returned

/-- Why a handshake that got to a registry may have been refused. -/
def Refused (S : Setting n) (V : Network n → Prop) (b : Books n) (j : Fin n)
    (hostkey handshake : Bytes) : Prop :=
  4 + hostkey.length + handshake.length ≤ maxPayload →
    Welcomes (S.node j).registry hostkey handshake → Spent S V b j

/-- A hop that accepts a handshake holds a session and a link. -/
theorem does_acceptHandshake (hS : S.Own) (hostkey handshake : Bytes) :
    Does S V now (depth + 1) i b (Node.acceptHandshake hostkey handshake) fun res b' =>
      (∃ id returned y, res = .ok (id, returned) ∧ (b i).session id = none ∧
        b' = b.opened ⟨i, .peers⟩ id y (.ofHostkey hostkey) ∧
        Answered (S.node i).registry hostkey handshake y returned) ∨
      (∃ e, res = .error e) ∧ b' = b ∧ Refused S V b i hostkey handshake := by
  refine (does_acceptSession hS hostkey handshake).bind ?_ ?_
  · rintro ⟨id, returned⟩ _ (⟨_, _, y, ⟨⟩, hfree, rfl, hanswered⟩ | ⟨⟨_, ⟨⟩⟩, _⟩)
    refine Does.andThen (P := fun _ b' => b' = b.opened ⟨i, .peers⟩ id y (.ofHostkey hostkey)) ?_ ?_
    · refine (does_insertLink id ⟨.ofHostkey hostkey, none⟩ ?_).mono ?_
      · intro node hrow
        rw [← hrow]
        exact Table.get?_insert _ _ _
      · rintro _ _ ⟨rfl, rfl⟩
        exact ⟨_, rfl, rfl⟩
    · rintro _ _ rfl
      refine Does.andThen (P := fun _ b' => b' = b.opened ⟨i, .peers⟩ id y (.ofHostkey hostkey))
        ?_ ?_
      · refine (does_updateDirectory _).mono ?_
        rintro _ _ ⟨rfl, rfl⟩
        exact ⟨_, rfl, rfl⟩
      · rintro _ _ rfl
        exact Does.pure (.inl ⟨id, returned, y, rfl, hfree, rfl, hanswered⟩)
  · rintro e _ (⟨_, _, _, ⟨⟩, _⟩ | ⟨-, rfl, hrefused⟩)
    exact .inr ⟨⟨e, rfl⟩, rfl, hrefused⟩

/-- A reply that refuses a handshake, or none. -/
def Refusal (reply : Option Message) : Prop :=
  reply = none ∨ reply = some .sessionDeclined ∨
    reply = some (Node.failure .incomingHandshake1 Node.endLink)

/-- A service that gets a handshake accepts it, or refuses it and nothing is left of it. -/
theorem leads_answerHandshake (hS : S.Own) {dest : Address} {s : ServiceOf n}
    (hdest : S.serviceAt? dest = some s) (hostkey handshake : Bytes) :
    Leads S V now (depth + 1) s.owner b (Node.answer s.service (.incomingHandshake1 hostkey handshake))
      fun reply b' =>
        (∃ link y returned, reply = some (.sessionHandshake2 link returned) ∧
          Accepts S b dest hostkey handshake s link y returned ∧
          b' = b.opened s link y (.ofHostkey hostkey)) ∨
        Refusal reply ∧ b' = b ∧ (s.service ≠ .clients → Refused S V b s.owner hostkey handshake) := by
  obtain ⟨j, service⟩ := s
  cases service with
  | sessions =>
    refine (leads_sessions_handshake1 hostkey handshake).mono ?_
    rintro _ _ ⟨v, ⟨link, returned, y, rfl, hfree, rfl, hanswered⟩ | ⟨rfl, rfl, hreason⟩, rfl⟩
    · exact .inl ⟨link, y, returned, rfl, ⟨hdest, by simp, hfree, hanswered⟩, rfl⟩
    · exact .inr ⟨.inr (.inl rfl), Books.withSessions_self b j, fun _ _ => hreason⟩
  | clients => exact Leads.pure (.inr ⟨.inl rfl, rfl, fun h => (h rfl).elim⟩)
  | peers =>
    apply Leads.bind (does_acceptHandshake hS hostkey handshake)
    rintro _ _ (⟨link, returned, y, rfl, hfree, rfl, hanswered⟩ | ⟨⟨e, rfl⟩, rfl, hrefused⟩)
    · exact Leads.pure (.inl ⟨link, y, returned, rfl, ⟨hdest, by simp, hfree, hanswered⟩, rfl⟩)
    · exact Leads.pure (.inr ⟨.inr (.inr rfl), rfl, fun _ => hrefused⟩)

theorem Refusal.received {reply : Option Message} (h : Refusal reply) (link : UInt32)
    (returned : Bytes) : Node.received reply ≠ .ok (.sessionHandshake2 link returned) := by
  obtain rfl | rfl | rfl := h
  · rintro ⟨⟩
  · have hdeclined : Node.received (some .sessionDeclined) = .ok .sessionDeclined :=
      received_of_plain rfl (Nat.zero_le _)
    simp [hdeclined]
  · have hfailure : Node.received (some (Node.failure .incomingHandshake1 Node.endLink)) =
        .ok (Node.failure .incomingHandshake1 Node.endLink) :=
      received_of_plain rfl (show 8 ≤ maxPayload by decide)
    rw [hfailure]
    rintro ⟨⟩

/-- Of all messages that come back only a second handshake is taken. -/
theorem does_returnedHandshake {x : Node.Action Message} {A : UInt32 → Bytes → Books n → Prop}
    {B : Books n → Prop}
    (hx : Does S V now depth i b x fun res b' =>
      (∃ link returned, res = .ok (.sessionHandshake2 link returned) ∧ A link returned b') ∨
      (∀ link returned, res ≠ .ok (.sessionHandshake2 link returned)) ∧ B b') :
    Does S V now depth i b (x >>= Node.returnedHandshake) fun res b' =>
      (∃ link returned, res = .ok (link, returned) ∧ A link returned b') ∨
      (∃ e, res = .error e) ∧ B b' := by
  refine hx.bind ?_ ?_
  · rintro m b' (⟨link, returned, ⟨⟩, hA⟩ | ⟨hother, hB⟩)
    · exact Does.pure (.inl ⟨link, returned, rfl, hA⟩)
    · unfold Node.returnedHandshake
      split
      · next link returned => exact (hother link returned rfl).elim
      · exact Does.throw (.inr ⟨⟨_, rfl⟩, hB⟩)
  · rintro e b' (⟨_, _, ⟨⟩, _⟩ | ⟨-, hB⟩)
    exact .inr ⟨⟨e, rfl⟩, hB⟩

/-- A handshake is accepted by the service at an address, or nothing is left of it. -/
theorem does_deliverHandshake (hS : S.Own) {dest : Address} (hplain : S.Unscripted dest)
    (hostkey handshake : Bytes) :
    Does S V now (depth + 2) i b (Node.deliverHandshake dest hostkey handshake) fun res b' =>
      (∃ link returned, res = .ok (link, returned) ∧ ∃ s y,
        Accepts S b dest hostkey handshake s link y returned ∧
        b' = b.opened s link y (.ofHostkey hostkey)) ∨
      (∃ e, res = .error e) ∧ b' = b ∧ ∀ s, S.serviceAt? dest = some s → s.service ≠ .clients →
        Refused S V b s.owner hostkey handshake := by
  apply does_returnedHandshake
  cases hdest : S.serviceAt? dest with
  | none =>
    refine (does_askPeer_undelivered (.inl ⟨hplain, hdest⟩)).mono ?_
    rintro _ _ ⟨⟨e, rfl⟩, rfl⟩
    exact .inr ⟨fun _ _ => nofun, rfl, fun _ => nofun⟩
  | some s =>
    obtain hm | hm := Message.transmit_cases (.incomingHandshake1 hostkey handshake)
    · refine (does_askPeer_undelivered (.inr hm)).mono ?_
      rintro _ _ ⟨⟨e, rfl⟩, rfl⟩
      obtain ⟨e', hm⟩ := hm
      refine .inr ⟨fun _ _ => nofun, rfl, fun _ _ _ hfit => ?_⟩
      have hok := Message.transmit_of_plain (m := .incomingHandshake1 hostkey handshake) rfl hfit
      exact (ok_ne_error hok hm).elim
    · refine (does_askPeer hdest hm (leads_answerHandshake hS hdest hostkey handshake)).mono ?_
      rintro _ _ ⟨_, ⟨link, y, returned, rfl, haccepts, rfl⟩ | ⟨hrefusal, rfl, hrefused⟩, rfl⟩
      · have hfit : 4 + returned.length ≤ maxPayload :=
          Nat.le_trans (Nat.add_le_add_left haccepts.answered.length_le 4) (by decide)
        exact .inl ⟨link, returned, received_of_plain rfl hfit, s, y, haccepts, rfl⟩
      · refine .inr ⟨hrefusal.received, rfl, ?_⟩
        rintro _ ⟨⟩
        exact hrefused

/-! ### Extending a route -/

/-- A link that is held and goes nowhere yet is told where it goes on. -/
theorem does_joinNext {id : UInt32} {peer : Identity} (hlink : (b i).link id = some ⟨peer, none⟩)
    (next : Downstream) :
    Does S V now depth i b (Node.joinNext id next) fun res b' =>
      res = .ok ⟨⟩ ∧ b' = b.setLink i id (some ⟨peer, some next⟩) := by
  refine Does.get fun node _ hrow => ?_
  have hextend : node.links.extend id next = .ok (node.links.insert id ⟨peer, some next⟩) := by
    have hget : node.links.get? id = some ⟨peer, none⟩ := by
      rw [← hlink, ← hrow]
      rfl
    unfold LinkTable.extend
    simp only [hget]
  simp only [hextend]
  refine does_insertLink _ _ fun _ _ => ?_
  rw [Table.get?_insert, ← hrow]
  rfl

theorem does_ofFrame {α β : Type} {x : Except FrameError α} {a : α} (hx : x = .ok a)
    {f : α → Node.Action β} {Q : Except TunnelError β → Books n → Prop}
    (h : Does S V now depth i b (f a) Q) : Does S V now depth i b (Node.ofFrame x >>= f) Q := by
  subst hx
  exact Does.bind (P := fun res b' => res = .ok a ∧ b' = b) (Does.pure ⟨rfl, rfl⟩)
    (by rintro _ _ ⟨⟨⟩, rfl⟩; exact h) (by rintro _ _ ⟨⟨⟩, _⟩)

theorem does_ofFrame_error {α β : Type} {x : Except FrameError α} {e : FrameError}
    (hx : x = .error e) {f : α → Node.Action β} {Q : Except TunnelError β → Books n → Prop}
    (h : Q (.error (.connection e)) b) : Does S V now depth i b (Node.ofFrame x >>= f) Q := by
  subst hx
  exact Does.bind (P := fun res b' => res = .error (.connection e) ∧ b' = b)
    (Does.throw ⟨rfl, rfl⟩) (by rintro _ _ ⟨⟨⟩, _⟩) (by rintro _ _ ⟨⟨⟩, rfl⟩; exact h)

/-- A hop at the end of a route extends its link by the service that accepts the handshake. -/
theorem does_extendLink (hS : S.Own) {id : UInt32} {peer : Identity}
    (hlink : (b i).link id = some ⟨peer, none⟩) (hheld : (b i).session id ≠ none)
    {incoming hostkey handshake : Bytes}
    (hincoming : Message.decode incoming = .ok (.incomingHandshake1 hostkey handshake))
    {nextHop : Address} (hplain : S.Unscripted nextHop) :
    Does S V now (depth + 2) i b (Node.extendLink id nextHop incoming) fun res b' =>
      (∃ reply, res = .ok reply ∧ ∃ s link y returned,
        Accepts S b nextHop hostkey handshake s link y returned ∧
        (Message.sessionHandshake2 link returned).encode = .ok reply ∧
        b' = (b.opened s link y (.ofHostkey hostkey)).setLink i id
          (some ⟨peer, some ⟨nextHop, link⟩⟩)) ∨
      (∃ e, res = .error e) ∧ b' = b ∧ ∀ s, S.serviceAt? nextHop = some s →
        s.service ≠ .clients → Refused S V b s.owner hostkey handshake := by
  apply does_ofFrame hincoming
  refine (does_deliverHandshake hS hplain hostkey handshake).bind ?_ ?_
  · rintro ⟨link, returned⟩ _ (⟨_, _, ⟨⟩, s, y, haccepts, rfl⟩ | ⟨⟨_, ⟨⟩⟩, _⟩)
    have hne : (i, id) ≠ (s.owner, link) := by
      rintro ⟨⟩
      exact hheld haccepts.fresh
    refine Does.andThen (P := fun _ b' => b' = (b.opened s link y (.ofHostkey hostkey)).setLink i id
      (some ⟨peer, some ⟨nextHop, link⟩⟩)) ?_ ?_
    · refine (does_joinNext ((Books.link_opened_of_ne _ _ _ _ _ fun _ => hne).trans hlink) _).mono ?_
      rintro _ _ ⟨rfl, rfl⟩
      exact ⟨_, rfl, rfl⟩
    · rintro _ _ rfl
      have hfit : 4 + returned.length ≤ maxPayload :=
        Nat.le_trans (Nat.add_le_add_left haccepts.answered.length_le 4) (by decide)
      obtain ⟨reply, hreply⟩ := Message.exists_encode (m := .sessionHandshake2 link returned) hfit
        (Nat.zero_le _) trivial
      rw [hreply]
      exact Does.pure (.inl ⟨reply, rfl, s, link, y, returned, haccepts, hreply, rfl⟩)
  · rintro e _ (⟨_, _, ⟨⟩, _⟩ | ⟨-, h⟩)
    exact .inr ⟨⟨e, rfl⟩, h⟩

/-- Where the next hop after a route is dialled. -/
def dialled : List (Leg n) → Address → Address
  | [], a => a
  | _ :: _, a => a.canonical

/-- The sessions of a route stand when its last hop has been extended. -/
theorem held_of_accepts {legs : List (Leg n)} (hroute : Route S b i legs) {s : ServiceOf n}
    {link : UInt32} {y : Session} (hfresh : (b s.owner).session link = none) (peer : Identity)
    (next : Downstream) {l : Leg n} (hl : l ∈ legs) :
    Held S ((b.opened s link y peer).joined legs peer next) i l := by
  have hheld := hroute.held l hl
  refine hheld.congr ?_
  intro j x hend
  rw [Books.session_joined, Books.session_opened, if_neg]
  rintro ⟨⟩
  exact hheld.session_ne_none hend hfresh

/-- Why a hop that was dialled after a route may not have been reached. -/
def Unreached (S : Setting n) (V : Network n → Prop) (b : Books n) (legs : List (Leg n))
    (dest : Address) (hostkey handshake : Bytes) : Prop :=
  (∀ l, legs.getLast? = some l → l.far? ≠ none ∧
    FitsCell legs.length (32 + hostkey.length + handshake.length)) →
  ∀ s, S.serviceAt? dest = some s → s.service ≠ .clients → Refused S V b s.owner hostkey handshake

/-- A hop that was dialled after a route has accepted a handshake. -/
structure Joins (S : Setting n) (b : Books n) (i : Fin n) (legs : List (Leg n)) (dest : Address)
    (hostkey handshake : Bytes) (s : ServiceOf n) (link : UInt32) (y : Session) (returned : Bytes)
    (b' : Books n) : Prop where
  accepts : Accepts S b dest hostkey handshake s link y returned
  books_eq : b' = (b.opened s link y (S.identity i)).joined legs (S.identity i) ⟨dest, link⟩
  last : ∀ l, legs.getLast? = some l → l.far? ≠ none

/-- The last hop of a route does what a command to extend it says. -/
theorem done_extend (hS : S.Own) {legs : List (Leg n)} (hroute : Route S b i legs)
    {hostkey : Bytes} (hhostkey : S.identity i = .ofHostkey hostkey) {address : Address}
    (hplain : S.Unscripted address.canonical) {handshake incoming command : Bytes}
    (hincoming : (Message.incomingHandshake1 hostkey handshake).encode = .ok incoming)
    (hcommand : (Message.tunnelExtend address incoming).encode = .ok command) :
    Done S V now (depth + 2) b i legs command fun res b' =>
      (∃ reply, res = .ok reply ∧ ∃ s link y returned,
        (Message.sessionHandshake2 link returned).encode = .ok reply ∧
        Joins S b i legs address.canonical hostkey handshake s link y returned b') ∨
      (∃ e, res = .error e) ∧ b' = b ∧
        Unreached S V b legs address.canonical hostkey handshake where
  done l f hl hfar := by
    have hend : legs.getLast?.bind Leg.farEnd? = some (f.node, l.hop.link) := by
      simp [hl, Leg.farEnd?, hfar]
    have hlast : ∀ l', legs.getLast? = some l' → l'.far? ≠ none := by
      intro l' hl'
      obtain rfl := Option.some.inj (hl.symm.trans hl')
      simp [hfar]
    have hheld : (b f.node).session l.hop.link ≠ none := by
      rw [((hroute.held l (List.mem_of_getLast? hl)).far f hfar).accepted]
      exact Option.some_ne_none _
    apply does_ofFrame (Message.decode_canonical hcommand (by simp [Message.Blank]))
    refine (does_extendLink hS (hroute.linked.last hl hfar) hheld
      (Message.decode_canonical hincoming (by simp [Message.Blank])) hplain).mono ?_
    rintro _ _ (⟨reply, rfl, s, link, y, returned, haccepts, hreply, rfl⟩ | ⟨herror, rfl, hrefused⟩)
    · refine .inl ⟨reply, rfl, s, link, y, returned, hreply, haccepts, ?_, hlast⟩
      rw [Books.joined, hend, hhostkey]
    · exact .inr ⟨herror, rfl, fun _ => hrefused⟩
  lost l hl hfar e := .inr ⟨⟨e, rfl⟩, rfl, fun h => ((h l hl).1 hfar).elim⟩
  kept := by
    rintro _ _ (⟨_, -, s, link, y, _, -, hjoins⟩ | ⟨-, rfl, -⟩) l hl
    · rw [hjoins.books_eq]
      exact held_of_accepts hroute hjoins.accepts.fresh _ _ hl
    · exact hroute.held l hl

/-- A hop is reached on its own or through a route, or nothing is left of the attempt. -/
theorem does_reachHop (hS : S.Own) {legs : List (Leg n)} (hroute : Route S b i legs) {hop : Hop}
    (hplain : S.Unscripted (dialled legs hop.address)) (handshake : Bytes) {hostkey : Bytes}
    (hhostkey : hostkey = (S.node i).registry.keypair.hostkey) :
    Does S V now (depth + 2 + legs.length) i b
      (Node.reachHop hop (legs.map (·.hop)) handshake) fun res b' =>
        (∃ link returned, res = .ok (link, returned) ∧ ∃ s y,
          Joins S b i legs (dialled legs hop.address) hostkey handshake s link y returned b' ∧
          legs.length ≤ 255) ∨
        (∃ e, res = .error e) ∧ b' = b ∧
          Unreached S V b legs (dialled legs hop.address) hostkey handshake := by
  refine Does.get fun node hset _ => ?_
  rw [Node.hostkey_of_setting hset, ← hhostkey]
  have hidentity : S.identity i = .ofHostkey hostkey := by rw [hhostkey, Setting.identity]
  cases legs with
  | nil =>
    refine (does_deliverHandshake hS hplain hostkey handshake).mono ?_
    rintro _ _ (⟨link, returned, rfl, s, y, haccepts, rfl⟩ | ⟨herror, rfl, hrefused⟩)
    · refine .inl ⟨link, returned, rfl, s, y, ⟨haccepts, ?_, by simp⟩, by simp⟩
      rw [hidentity]
      rfl
    · exact .inr ⟨herror, rfl, fun _ => hrefused⟩
  | cons l rest =>
    have hcount : ∀ {P : Prop}, (∀ l', (l :: rest).getLast? = some l' → P) → P := by
      intro P h
      exact h _ (List.getLast?_eq_some_getLast (List.cons_ne_nil l rest))
    rw [if_neg (by simp)]
    cases hincoming : (Message.incomingHandshake1 hostkey handshake).encode with
    | error e =>
      refine does_ofFrame_error rfl (.inr ⟨⟨_, rfl⟩, rfl, fun h => ?_⟩)
      obtain ⟨f, hf⟩ := Message.exists_encode (m := .incomingHandshake1 hostkey handshake)
        (hcount fun l' hl' => by
          have hfits := (h l' hl').2.2
          simp only [Message.payloadLength]
          omega) (Nat.zero_le _) trivial
      exact (ok_ne_error hf hincoming).elim
    | ok incoming =>
      have hlen := Message.length_of_encode hincoming
      simp only [Message.payloadLength, headerLength] at hlen
      apply does_ofFrame rfl
      cases hcommand : (Message.tunnelExtend hop.address incoming).encode with
      | error e =>
        refine does_ofFrame_error rfl (.inr ⟨⟨_, rfl⟩, rfl, fun h => ?_⟩)
        obtain ⟨f, hf⟩ := Message.exists_encode (m := .tunnelExtend hop.address incoming)
          (hcount fun l' hl' => by
            have hfits := (h l' hl').2.2
            simp only [Message.payloadLength]
            omega) (Nat.zero_le _) trivial
        exact (ok_ne_error hf hcommand).elim
      | ok command =>
        have hlen' := Message.length_of_encode hcommand
        simp only [Message.payloadLength, headerLength] at hlen'
        have hlength : command.length = 32 + hostkey.length + handshake.length := by omega
        apply does_ofFrame rfl
        refine (does_relay hS hroute (done_extend hS hroute hidentity hplain hincoming hcommand)).bind
          ?_ ?_
        · rintro reply _ (⟨hfits, ⟨_, ⟨⟩, ⟨_, ⟨⟩, s, link, y, returned, hreply, hjoins⟩ |
            ⟨⟨_, ⟨⟩⟩, -⟩⟩ | ⟨⟨_, ⟨⟩⟩, -⟩⟩ | ⟨-, ⟨_, ⟨⟩⟩, -⟩)
          apply does_ofFrame (Message.decode_canonical hreply (by simp [Message.Blank]))
          exact Does.pure (.inl ⟨link, returned, rfl, s, y, hjoins, hfits.1⟩)
        · rintro e _ (⟨hfits, ⟨_, ⟨⟩, _⟩ | ⟨-, ⟨e', hE⟩ | ⟨reply, hE, hlong⟩⟩⟩ | ⟨hlong, -, rfl⟩)
          · obtain ⟨_, ⟨⟩, _⟩ | ⟨-, rfl, hunreached⟩ := hE
            exact .inr ⟨⟨e, rfl⟩, rfl, hunreached⟩
          · obtain ⟨_, ⟨⟩, s, link, y, returned, hreply, hjoins⟩ | ⟨⟨_, ⟨⟩⟩, -⟩ := hE
            refine (hlong ⟨hfits.1, ?_⟩).elim
            have hcells := hfits.1
            have hback := Message.length_of_encode hreply
            have hshort := hjoins.accepts.answered.length_le
            have hoverhead : Sealed.overhead = 48 := rfl
            have hmax : maxPayload = 65531 := rfl
            simp only [Message.payloadLength, headerLength] at hback
            rw [hback, hoverhead, hmax]
            omega
          · refine .inr ⟨⟨e, rfl⟩, rfl, fun h => ?_⟩
            exact hcount fun l' hl' => (hlong (hlength ▸ (h l' hl').2)).elim

end Network

end OnionTunnel
