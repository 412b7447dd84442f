import OnionTunnel.Proofs.Node.Rollback
import OnionTunnel.Proofs.Node.Tending

/-!
# Whom a node speaks to

The owner of a relayed tunnel speaks to its own session service and to the first hop, and to nobody
else, from the first handshake to the last destroy. A hop speaks to its own session service and to
the next hop of the link that it serves.

Nothing is assumed of those who answer, the session services among them, and nothing of what else
the nodes do meanwhile.
-/

namespace OnionTunnel.Node

variable {α β : Type} {n n' : Node} {t : List Contact} {E : Surroundings} {a : Address}
  {D : Address → Message → Prop} {Q : α → Prop}

/-! ### Runs of actions -/

theorem goes_get {f : Node → Program Node α} {c? : Option α}
    (h : Goes E (MonadState.get >>= f) n t c? n') : t = [] ∨ Goes E (f n) n t c? n' := by
  cases h with
  | pause => exact .inl rfl
  | read now h => exact .inr h

/-- Two actions have come as far as the first one has, or it has succeeded and the second one has
gone on. -/
theorem goes_bind {x : Action α} {f : α → Action β} {c? : Option (Except TunnelError β)}
    (h : Goes E (x >>= f).run n t c? n') :
    (∃ b?, Goes E x.run n t b? n') ∨ ∃ t₁ b n₁ t₂, Goes E x.run n t₁ (some (.ok b)) n₁ ∧
      Goes E (f b).run n₁ t₂ c? n' ∧ t = t₁ ++ t₂ := by
  obtain ⟨-, h⟩ | ⟨t₁, res, n₁, t₂, hx, hf, rfl⟩ := Goes.bind_cases h
  · exact .inl ⟨none, h⟩
  · cases res with
    | ok b => exact .inr ⟨t₁, b, n₁, t₂, hx, hf, rfl⟩
    | error e =>
      refine .inl ⟨some (.error e), ?_⟩
      cases hf with
      | pause => rw [List.append_nil]; exact hx
      | done => rw [List.append_nil]; exact hx

theorem goes_get_run {f : Node → Action α} {c? : Option (Except TunnelError α)}
    (h : Goes E (MonadState.get >>= f).run n t c? n') : t = [] ∨ Goes E (f n).run n t c? n' := by
  cases h with
  | pause => exact .inl rfl
  | read now h => exact .inr h

/-- What is done with the tunnel that a node has under an identifier. -/
theorem goes_tunnel {id : UInt32} {tunnel : Tunnel} {f : Tunnel → Action α}
    {c? : Option (Except TunnelError α)} (hid : n.tunnels.get? id = some tunnel)
    (h : Goes E (Node.tunnel id >>= f).run n t c? n') : t = [] ∨ Goes E (f tunnel).run n t c? n' := by
  -- The node looks at itself first; what it does then comes after.
  have hassoc : ∀ {g : Node → Action Tunnel}, Goes E ((MonadState.get >>= g) >>= f).run n t c? n' →
      t = [] ∨ Goes E (g n >>= f).run n t c? n' := fun h => goes_get_run (f := fun n => _ >>= f) h
  obtain ht | h := hassoc h
  · exact .inl ht
  · rw [hid] at h
    exact .inr h

/-- What is done with the tunnel that a node takes out under an identifier. -/
theorem goes_takeTunnel {id : UInt32} {tunnel : Tunnel} {f : Tunnel → Action α}
    {c? : Option (Except TunnelError α)} (hid : n.tunnels.get? id = some tunnel)
    (h : Goes E (takeTunnel id >>= f).run n t c? n') :
    t = [] ∨ Goes E (f tunnel).run { n with tunnels := n.tunnels.remove id } t c? n' := by
  cases h with
  | pause => exact .inl rfl
  | read now h =>
    cases h with
    | pause => exact .inl rfl
    | write h =>
      rw [← n.tunnels.take_fst] at hid
      simp only [hid] at h
      exact .inr h

/-! ### Hops -/

/-- A session request for a link: it is about the session that is numbered like the link. -/
inductive Concerns (id : UInt32) : Message → Prop
  | peel (number : UInt16) (data : Bytes) : Concerns id (.layerDecrypt number [id] data)
  | wrap (number : UInt16) (data : Bytes) : Concerns id (.layerEncrypt number [id] data)
  | close : Concerns id (.sessionClose id)

/-- What is said to peers. -/
inductive ToPeer : Message → Prop
  | handshake (hostkey handshake : Bytes) : ToPeer (.incomingHandshake1 hostkey handshake)
  | cell (link : UInt32) (data : Bytes) : ToPeer (.tunnelData link data)
  | drop (link : UInt32) : ToPeer (.tunnelDestroy link)

/-- What a hop may send while it serves a link: session requests for the link, and what is said to
peers if it is said to some addresses. -/
def Serves (a : Address) (id : UInt32) (onward : Address → Prop) (dest : Address) (m : Message) :
    Prop :=
  dest = a ∧ Concerns id m ∨ onward dest ∧ ToPeer m

theorem peering_serves {id : UInt32} {onward : Address → Prop} {dest : Address} (h : onward dest) :
    Peering (Serves a id onward) dest where
  handshake hostkey handshake := .inr ⟨h, .handshake hostkey handshake⟩
  cell link data := .inr ⟨h, .cell link data⟩
  drop link := .inr ⟨h, .drop link⟩

/-- A cell on a link was peeled to a text. -/
def Peeled (t : List Contact) (a : Address) (id : UInt32) (data text : Bytes) : Prop :=
  ∃ c ∈ t, ∃ number, c.dest = a ∧ c.message = .layerDecrypt number [id] data ∧
    c.outcome = .ok (some (.layerDecrypted number text))

theorem Peeled.append {id : UInt32} {data text : Bytes} (h : Peeled t a id data text)
    (t' : List Contact) : Peeled (t ++ t') a id data text := by
  obtain ⟨c, hc, hrest⟩ := h
  exact ⟨c, List.mem_append_left t' hc, hrest⟩

/-- Where a hop may send something on for a message of a peer: to the next hop of the link that the
message is about, or, if the link has none, to the hop by which the cell says to extend it. -/
inductive Onward (n : Node) (t : List Contact) : Message → Address → Prop
  | cell {id : UInt32} {data : Bytes} {peer : Identity} {next : Downstream}
      (hlink : n.links.get? id = some ⟨peer, some next⟩) : Onward n t (.tunnelData id data) next.address
  | extension {id : UInt32} {data command incoming : Bytes} {peer : Identity} {nextHop : Address}
      (hlink : n.links.get? id = some ⟨peer, none⟩)
      (hpeeled : Peeled t n.sessionService id data command)
      (hcommand : Message.decode command = .ok (.tunnelExtend nextHop incoming)) :
      Onward n t (.tunnelData id data) nextHop
  | destroy {id : UInt32} {peer : Identity} {next : Downstream}
      (hlink : n.links.get? id = some ⟨peer, some next⟩) : Onward n t (.tunnelDestroy id) next.address

/-- A text that came of peeling layers came with a reply of the session service. -/
theorem goes_decryptLayers {id : UInt32} {data text : Bytes}
    (h : Goes E (decryptLayers [id] data).run n t (some (.ok text)) n') :
    Peeled t n.sessionService id data text := by
  cases h with | read _ h =>
  cases h with | write h =>
  cases h with | read _ h =>
  cases h with | @send _ _ _ _ _ _ _ t _ o _ h =>
  obtain e | _ | reply := o
  · cases h
  · cases h
  · cases reply with
    | layerDecrypted actual payload =>
      change Goes E (matching n.nextRequest actual payload).run _ _ _ _ at h
      unfold matching at h
      split at h
      · next hnumber =>
        cases h
        refine ⟨_, List.mem_cons_self, n.nextRequest, rfl, rfl, ?_⟩
        rw [hnumber]
      · cases h
    | _ => cases h

section Hops
variable {id : UInt32} {data : Bytes}

/-- While a hop handles a cell, it asks its session service about the link's own session, and
speaks to the next hop. -/
theorem goes_handleCell (hE : E.Steady) {c? : Option (Except TunnelError Bytes)}
    (h : Goes E (handleCell id data).run n t c? n') :
    ∀ c ∈ t, Serves n.sessionService id (Onward n t (.tunnelData id data)) c.dest c.message := by
  obtain rfl | h := goes_get_run h
  · simp
  obtain hlink | ⟨⟨peer, downstream?⟩, hlink⟩ := Option.eq_none_or_eq_some (n.links.get? id)
  · rw [hlink] at h
    cases h <;> simp
  · rw [hlink] at h
    have hpeel : ActsWithin n.sessionService
        (Serves n.sessionService id (Onward n t (.tunnelData id data))) (fun _ => True)
        (decryptLayers [id] data) :=
      within_decryptLayers fun number => .inl ⟨rfl, .peel number data⟩
    obtain ⟨b?, h⟩ | ⟨t₁, text, n₁, t₂, hfirst, hrest, rfl⟩ := goes_bind h
    · exact (hpeel.goes hE rfl h).2.1
    · obtain ⟨hservice, hsent, -⟩ := hpeel.goes hE rfl hfirst
      have hpeeled := (goes_decryptLayers hfirst).append t₂
      have htends := @tends_answerCell n₁ n.sessionService
        (Serves n.sessionService id (Onward n (t₁ ++ t₂) (.tunnelData id data))) (fun _ _ => True)
        id ⟨peer, downstream?⟩ text hservice
        (by rintro next rfl; exact peering_serves (.cell hlink))
        (by rintro rfl _ _ hcommand; exact peering_serves (.extension hlink hpeeled hcommand))
        (fun number reply => .inl ⟨rfl, .wrap number reply⟩)
      intro c hc
      obtain hc | hc := List.mem_append.1 hc
      · exact hsent c hc
      · exact (htends.goes hE hservice hrest).2.1 c hc

/-- While a hop drops a link, it has the link's own session closed, and tells the next hop. -/
theorem goes_handleDestroy (hE : E.Steady) {c? : Option Unit}
    (h : Goes E (handleDestroy id) n t c? n') :
    ∀ c ∈ t, Serves n.sessionService id (Onward n t (.tunnelDestroy id)) c.dest c.message := by
  obtain rfl | h := goes_get h
  · simp
  obtain hlink | ⟨⟨peer, downstream?⟩, hlink⟩ := Option.eq_none_or_eq_some (n.links.get? id)
  · rw [hlink] at h
    cases h <;> simp
  · rw [hlink] at h
    have htends := @tends_drop n n.sessionService
      (Serves n.sessionService id (Onward n t (.tunnelDestroy id))) (fun _ _ => True) id
      ⟨peer, downstream?⟩ rfl (.inl ⟨rfl, .close⟩)
      (by rintro next rfl; exact peering_serves (.destroy hlink))
    exact (htends.goes hE rfl h).2.1

/-- Nothing is sent once there is something to reply. -/
theorem goes_reply {x : Program Node α} {f : α → Program Node β} {c? : Option β}
    (hf : ∀ a, ∃ b, f a = Pure.pure b) (h : Goes E (x >>= f) n t c? n') :
    ∃ a?, Goes E x n t a? n' := by
  obtain ⟨-, h⟩ | ⟨t₁, a, n₁, t₂, hx, hrest, rfl⟩ := Goes.bind_cases h
  · exact ⟨none, h⟩
  · refine ⟨some a, ?_⟩
    obtain ⟨b, hb⟩ := hf a
    rw [hb] at hrest
    cases hrest with
    | pause => rw [List.append_nil]; exact hx
    | done => rw [List.append_nil]; exact hx

theorem Serves.dest {onward : Address → Prop} {dest : Address} {m : Message}
    (h : Serves a id onward dest m) : dest = a ∨ onward dest :=
  h.imp And.left And.left

/-- While it answers a peer, a node speaks to its session service and to the next hop. -/
theorem goes_answerPeers (hE : E.Steady) {m : Message} {reply? : Option (Option Message)}
    (h : Goes E (answerPeers m) n t reply? n') :
    ∀ c ∈ t, c.dest = n.sessionService ∨ Onward n t m c.dest := by
  cases m with
  | incomingHandshake1 hostkey handshake =>
    obtain ⟨a?, h⟩ := goes_reply (by rintro (_ | _) <;> exact ⟨_, rfl⟩) h
    have htends : ActsTending n.sessionService (fun dest _ => dest = n.sessionService)
        (fun _ _ => True) (fun _ => True) n (acceptHandshake hostkey handshake) :=
      tends_acceptHandshake rfl rfl fun _ => trivial
    exact fun c hc => .inl ((htends.goes hE rfl h).2.1 c hc)
  | tunnelData link data =>
    obtain ⟨a?, h⟩ := goes_reply (by rintro (_ | _) <;> exact ⟨_, rfl⟩) h
    exact fun c hc => (goes_handleCell hE h c hc).dest
  | tunnelDestroy link =>
    obtain ⟨a?, h⟩ := goes_reply (fun _ => ⟨_, rfl⟩) h
    exact fun c hc => (goes_handleDestroy hE h c hc).dest
  | _ => cases h <;> simp

end Hops

/-! ### Owners -/

/-- The owner of a tunnel may send anything to its session service and to one address. -/
def Entering (a : Address) (first? : Option Address) (dest : Address) (_ : Message) : Prop :=
  dest = a ∨ first? = some dest

theorem peering_entering {first? : Option Address} {dest : Address} (h : first? = some dest) :
    Peering (Entering a first?) dest :=
  .of_all fun _ => .inr h

theorem peering_of_mem_spokenTo {addresses : List Address} {dest : Address}
    (h : dest ∈ spokenTo .relayed addresses) : Peering (Entering a addresses.head?) dest := by
  cases addresses with
  | nil => cases h
  | cons first rest =>
    obtain rfl := List.mem_singleton.1 h
    exact peering_entering rfl

/-- A run of two actions that succeeds is one of the first that does, and then one of the second. -/
theorem goes_bind_ok {x : Action α} {f : α → Action β} {c : β}
    (h : Goes E (x >>= f).run n t (some (.ok c)) n') : ∃ t₁ b n₁ t₂,
      Goes E x.run n t₁ (some (.ok b)) n₁ ∧ Goes E (f b).run n₁ t₂ (some (.ok c)) n' := by
  obtain ⟨hnone, -⟩ | ⟨t₁, res, n₁, t₂, hx, hf, -⟩ := Goes.bind_cases h
  · cases hnone
  · cases res with
    | ok b => exact ⟨t₁, b, n₁, t₂, hx, hf⟩
    | error e => cases hf

theorem goes_attempt {x : Action α} {res : Except TunnelError α}
    (h : Goes E (attempt x).run n t (some (.ok res)) n') : Goes E x.run n t (some res) n' := by
  obtain ⟨hnone, -⟩ | ⟨t₁, res', n₁, t₂, hx, hf, rfl⟩ := Goes.bind_cases h
  · cases hnone
  · cases hf
    rw [List.append_nil]
    exact hx

/-- A build that succeeds leaves a tunnel with the hops' addresses. -/
theorem goes_build_ok (hE : E.Steady) {mode : TunnelMode} {hops : List Hop} {id : UInt32}
    (h : Goes E (build mode hops).run n t (some (.ok id)) n') :
    ∃ tunnel, n'.tunnels.get? id = some tunnel ∧ tunnel.mode = mode ∧
      tunnel.hops.map (·.address) = hops.map (·.address) := by
  unfold build at h
  split at h
  · cases h
  next destination _ =>
  obtain ⟨t₁, id', n₁, t₂, -, h⟩ := goes_bind_ok h
  obtain ⟨t₃, res, n₂, t₄, hopens, h⟩ := goes_bind_ok h
  cases res with
  | error e =>
    cases h with | read _ h =>
    cases h with | write h =>
    cases h
  | ok built =>
    cases h with | read _ h =>
    cases h with | write h =>
    cases h
    refine ⟨⟨id, mode, built, destination.hostkey⟩, ?_, rfl, ?_⟩
    · show TunnelTable.get? (TunnelTable.complete _ _) id = _
      rw [TunnelTable.complete, TunnelTable.get?, Table.get?_insert_self]
    · have hany : ∀ dest, Peering (fun _ _ => True) dest := fun _ => .of_all fun _ => trivial
      have hopened := @within_openHops n₁.sessionService _ mode [] hops (fun _ => trivial)
        fun x _ => hany x
      exact (hopened.goes hE rfl (goes_attempt hopens)).2.2 _ rfl built rfl

/-- A node has come so far with a use of a tunnel: it sends through it, takes the layers off a
reply, or tears it down. -/
inductive Uses (E : Surroundings) (id : UInt32) (n : Node) (t : List Contact) (n' : Node) : Prop
  | send {payload : Bytes} {res? : Option (Except TunnelError Bytes)}
      (h : Goes E (send id payload).run n t res? n')
  | receive {layered : Bytes} {res? : Option (Except TunnelError Bytes)}
      (h : Goes E (receive id layered).run n t res? n')
  | teardown {res? : Option (Except TunnelError Unit)} (h : Goes E (teardown id).run n t res? n')

/-- Whoever uses a relayed tunnel speaks to the session service and to the first hop. -/
theorem Uses.entering (hE : E.Steady) {id : UInt32} {tunnel : Tunnel}
    (hid : n.tunnels.get? id = some tunnel) (hmode : tunnel.mode = .relayed)
    (h : Uses E id n t n') :
    ∀ c ∈ t, Entering n.sessionService (tunnel.hops.map (·.address)).head? c.dest c.message := by
  have hown : ∀ m, Entering n.sessionService (tunnel.hops.map (·.address)).head? n.sessionService
    m := fun _ => .inl rfl
  have hfirst : ∀ first, tunnel.hops.head? = some first →
      Peering (Entering n.sessionService (tunnel.hops.map (·.address)).head?) first.address := by
    intro first hfirst
    apply peering_entering
    rw [List.head?_map, hfirst, Option.map_some]
  cases h with
  | @send payload _ h =>
    obtain rfl | h := goes_tunnel hid h
    · simp
    exact ((within_sendThrough hown hfirst payload).goes hE rfl h).2.1
  | receive h =>
    obtain rfl | h := goes_tunnel hid h
    · simp
    exact ((within_decryptLayers fun _ => hown _).goes hE rfl h).2.1
  | teardown h =>
    obtain rfl | h := goes_takeTunnel hid h
    · simp
    have hnotified : ∀ h ∈ notified tunnel.mode tunnel.hops,
        Peering (Entering n.sessionService (tunnel.hops.map (·.address)).head?) h.address := by
      intro hop hmem
      have hspoken := mem_spokenTo_of_notified hmem []
      rw [List.append_nil, hmode] at hspoken
      exact peering_of_mem_spokenTo hspoken
    exact ((within_giveUp hown hnotified).goes hE (by rfl) h).2.1

/-- Whatever others do, what a node has sent by any time for a relayed tunnel has gone to its own
session service and to the first hop: while it builds the tunnel, also if the build fails, and
whenever it sends through the tunnel that was built, takes the layers off a reply or tears it down.
What a node has sent while it answers a peer has gone to its session service, to the next hop of
the link that the message is about, or to the hop by which the peeled cell says to extend it. -/
theorem speaks_to_neighbours (n : Node) :
    (∀ (hops : List Hop) (t : List Contact) (res? : Option (Except TunnelError UInt32)) (n' : Node),
      Goes restless (build .relayed hops).run n t res? n' →
      (∀ c ∈ t, c.dest = n.sessionService ∨ (hops.map (·.address)).head? = some c.dest) ∧
      ∀ id, res? = some (.ok id) → ∃ tunnel, n'.tunnels.get? id = some tunnel ∧
        ∀ later : Node, later.sessionService = n.sessionService →
          later.tunnels.get? id = some tunnel → ∀ t' later', Uses restless id later t' later' →
          ∀ c ∈ t', c.dest = n.sessionService ∨ (hops.map (·.address)).head? = some c.dest) ∧
    ∀ (m : Message) (t : List Contact) (reply? : Option (Option Message)) (n' : Node),
      Goes restless (answerPeers m) n t reply? n' →
      ∀ c ∈ t, c.dest = n.sessionService ∨ Onward n t m c.dest := by
  constructor
  · intro hops t res? n' h
    have hwithin : ActsWithin n.sessionService
        (Entering n.sessionService (hops.map (·.address)).head?) (fun _ => True)
        (build .relayed hops) :=
      within_build (fun _ => .inl rfl) fun x hx => peering_of_mem_spokenTo hx
    refine ⟨(hwithin.goes steady_restless rfl h).2.1, ?_⟩
    rintro id rfl
    obtain ⟨tunnel, hid, hmode, haddresses⟩ := goes_build_ok steady_restless h
    refine ⟨tunnel, hid, ?_⟩
    intro later hservice hlater t' later' huses
    rw [← haddresses, ← hservice]
    exact huses.entering steady_restless hlater hmode
  · intro m t reply? n' h
    exact goes_answerPeers steady_restless h

/-- The handshake that a hop returns in a cell. -/
def returnedCell : Bytes :=
  (Message.sessionHandshake2 2 ((Message.handshake2 [1]).encode.toOption.getD [])).encode.toOption.getD
    []

/-- What comes of messages if all go well and layers are left out. -/
def obliging (_ : Address) : Message → Outcome
  | .sessionStart _ => .ok (some (.sessionHandshake1 1 []))
  | .incomingHandshake1 .. => .ok (some (.sessionHandshake2 1 []))
  | .incomingHandshake2 .. => .ok (some .sessionConfirmed)
  | .layerEncrypt number _ payload => .ok (some (.layerEncrypted number payload))
  | .layerDecrypt number _ payload => .ok (some (.layerDecrypted number payload))
  | .tunnelData link _ => .ok (some (.tunnelData link returnedCell))
  | _ => .ok none

/-- A relayed tunnel over two hops is built, and only the first one is spoken to. -/
theorem speaks_to_neighbours_obliging :
    ∃ (t : List Contact) (id : UInt32) (n' : Node),
      Goes restless (build .relayed [farHop, deadHop]).run loopNode t (some (.ok id)) n' ∧
      (∃ c ∈ t, c.dest = farHop.address) ∧
      ∀ c ∈ t, c.dest = loopNode.sessionService ∨
        ([farHop, deadHop].map (·.address)).head? = some c.dest := by
  have hrun := goes_follow obliging (build .relayed [farHop, deadHop]).run loopNode
  have hok : (follow obliging (build .relayed [farHop, deadHop]).run loopNode).2.1 = .ok 1 := by
    decide +kernel
  have hfar : ∃ c ∈ (follow obliging (build .relayed [farHop, deadHop]).run loopNode).1,
      c.dest = farHop.address := by
    decide +kernel
  rw [hok] at hrun
  exact ⟨_, 1, _, hrun, hfar, ((speaks_to_neighbours loopNode).1 _ _ _ _ hrun).1⟩

end OnionTunnel.Node
