import OnionTunnel.Proofs.Node.Alone

/-!
# Programs that keep within bounds

`Within` says of a program what it may send to whom and what it may end with, whatever its messages
bring back and whatever the node has become while it waited. A program changes the node beside its
sessions and its links only: sessions are the business of the session service, and links that of
hops. There is one lemma a function.
-/

namespace OnionTunnel.Node

variable {α β : Type} {a : Address} {D : Address → Message → Prop} {Q : α → Prop} {R : β → Prop}

/-- A node has been changed beside its sessions and its links. -/
structure Beside (n n' : Node) : Prop where
  service : n'.sessionService = n.sessionService
  sessions : n'.registry.sessions = n.registry.sessions
  links : n'.links = n.links

/-- A program of a node whose session service is at an address changes the node beside its sessions,
sends what may be sent, and ends with what it may end with. -/
inductive Within {α : Type} (a : Address) (D : Address → Message → Prop) (Q : α → Prop) :
    Program Node α → Prop
  | done {c : α} (h : Q c) : Within a D Q (.done c)
  | look {k : Instant → Node → Program Node α}
      (h : ∀ now n, n.sessionService = a → Within a D Q (k now n)) : Within a D Q (.read k)
  | change {f : Node → Node} {k : Node → Program Node α} (hf : ∀ n, Beside n (f n))
      (h : ∀ n, n.sessionService = a → Within a D Q (k n)) :
      Within a D Q (.read fun _ n => .write (f n) (k n))
  | send {dest : Address} {m : Message} {limit : Option Duration} {k : Outcome → Program Node α}
      (hd : D dest m) (h : ∀ o, Within a D Q (k o)) : Within a D Q (.send dest m limit k)

/-- What an action may send to whom, and what it may end with if it succeeds. -/
def ActsWithin (a : Address) (D : Address → Message → Prop) (Q : α → Prop) (x : Action α) : Prop :=
  Within a D (fun res => ∀ c, res = .ok c → Q c) x.run

/-! ### Rules -/

theorem Within.mono {p : Program Node α} {Q' : α → Prop} (hp : Within a D Q p)
    (h : ∀ c, Q c → Q' c) : Within a D Q' p := by
  induction hp with
  | done hc => exact .done (h _ hc)
  | look _ ih => exact .look ih
  | change hf _ ih => exact .change hf ih
  | send hd _ ih => exact .send hd ih

theorem Within.pure {c : α} (h : Q c) : Within a D Q (Pure.pure c) := .done h

/-- One program after another. -/
theorem Within.bind {p : Program Node α} {f : α → Program Node β} (hp : Within a D Q p)
    (hf : ∀ c, Q c → Within a D R (f c)) : Within a D R (p >>= f) := by
  show Within a D R (p.bind f)
  induction hp with
  | done hc => exact hf _ hc
  | look _ ih => exact .look ih
  | change hg _ ih => exact .change hg ih
  | send hd _ ih => exact .send hd ih

/-- A look of the node at itself. -/
theorem Within.get : Within a D (fun n => n.sessionService = a) (MonadState.get : Program Node Node) :=
  .look fun _ _ hn => .done hn

theorem Within.modifyGet {f : Node → α × Node} (hf : ∀ n, Beside n (f n).2) :
    Within a D (fun _ => True) (MonadStateOf.modifyGet f) :=
  .change hf fun _ _ => .done trivial

theorem Within.modify {f : Node → Node} (hf : ∀ n, Beside n (f n)) :
    Within a D (fun _ => True) (modify f : Program Node PUnit) :=
  Within.modifyGet hf

theorem Within.exchange {dest : Address} {m : Message} (limit : Option Duration) (hd : D dest m) :
    Within a D (fun _ => True) (Program.exchange limit dest m) :=
  .send hd fun _ => .done trivial

theorem Within.forM {γ : Type} {f : γ → Program Node PUnit} {cs : List γ}
    (hf : ∀ c ∈ cs, Within a D (fun _ => True) (f c)) : Within a D (fun _ => True) (cs.forM f) := by
  induction cs with
  | nil => exact Within.pure trivial
  | cons c cs ih =>
    refine Within.bind (hf c List.mem_cons_self) fun _ _ => ?_
    exact ih fun c' hc' => hf c' (List.mem_cons_of_mem c hc')

theorem ActsWithin.mono {x : Action α} {Q' : α → Prop} (hx : ActsWithin a D Q x)
    (h : ∀ c, Q c → Q' c) : ActsWithin a D Q' x :=
  Within.mono hx fun _ hres c hc => h c (hres c hc)

theorem ActsWithin.pure {c : α} (h : Q c) : ActsWithin a D Q (Pure.pure c) := by
  apply Within.done
  rintro _ ⟨⟩
  exact h

theorem ActsWithin.throw (e : TunnelError) : ActsWithin a D Q (throw e : Action α) :=
  .done fun _ => nofun

/-- One action after another. -/
theorem ActsWithin.bind {x : Action α} {f : α → Action β} (hx : ActsWithin a D Q x)
    (hf : ∀ c, Q c → ActsWithin a D R (f c)) : ActsWithin a D R (x >>= f) := by
  refine Within.bind hx ?_
  rintro (e | c) hres
  · exact .done fun _ => nofun
  · exact hf c (hres c rfl)

/-- An action after a program. -/
theorem ActsWithin.after {p : Program Node α} {f : α → Action β} (hp : Within a D Q p)
    (hf : ∀ c, Q c → ActsWithin a D R (f c)) : ActsWithin a D R (liftM p >>= f) := by
  have hlifted : ActsWithin a D Q (liftM p : Action α) := by
    refine Within.bind hp fun c hc => ?_
    exact ActsWithin.pure hc
  exact hlifted.bind hf

/-- An action that is tried. -/
theorem ActsWithin.attempt {x : Action α} {f : Except TunnelError α → Action β}
    (hx : ActsWithin a D Q x) (hok : ∀ c, Q c → ActsWithin a D R (f (.ok c)))
    (herror : ∀ e, ActsWithin a D R (f (.error e))) : ActsWithin a D R (attempt x >>= f) := by
  refine ActsWithin.after hx ?_
  rintro (e | c) hres
  · exact herror e
  · exact hok c (hres c rfl)

/-! ### Messages and sessions -/

section Sessions
variable {dest : Address} {m : Message}

theorem within_notify (limit : Option Duration) (hd : D dest m) :
    Within a D (fun _ => True) (notify limit dest m) :=
  Within.bind (Within.exchange limit hd) fun _ _ => Within.pure trivial

theorem within_request (limit : Option Duration) (hd : D dest m) :
    ActsWithin a D (fun _ => True) (request limit dest m) := by
  refine ActsWithin.after (Within.exchange limit hd) ?_
  rintro (e | _ | reply) -
  · exact ActsWithin.throw _
  · exact ActsWithin.throw _
  · exact ActsWithin.pure trivial

theorem within_askSessions (hd : D a m) : ActsWithin a D (fun _ => True) (askSessions m) := by
  refine ActsWithin.after Within.get fun n hn => ?_
  rw [hn]
  exact within_request none hd

theorem within_startSession {hostkey : Bytes} (hd : D a (.sessionStart hostkey)) :
    ActsWithin a D (fun _ => True) (startSession hostkey) := by
  refine ActsWithin.bind (within_askSessions hd) fun reply _ => ?_
  split
  · exact ActsWithin.pure trivial
  · exact ActsWithin.throw _

theorem within_acceptSession {hostkey handshake : Bytes}
    (hd : D a (.incomingHandshake1 hostkey handshake)) :
    ActsWithin a D (fun _ => True) (acceptSession hostkey handshake) := by
  refine ActsWithin.bind (within_askSessions hd) fun reply _ => ?_
  split
  · exact ActsWithin.pure trivial
  · exact ActsWithin.throw _

theorem within_confirmSession {id : UInt32} {handshake : Bytes}
    (hd : D a (.incomingHandshake2 id handshake)) :
    ActsWithin a D (fun _ => True) (confirmSession id handshake) := by
  refine ActsWithin.bind (within_askSessions hd) fun reply _ => ?_
  split
  · exact ActsWithin.pure trivial
  · exact ActsWithin.throw _

theorem within_nextRequestId : ActsWithin a D (fun _ => True) nextRequestId := by
  refine Within.bind (Within.modifyGet fun _ => ⟨rfl, rfl, rfl⟩) fun _ _ => ?_
  exact ActsWithin.pure trivial

theorem within_matching (expected actual : UInt16) (payload : Bytes) :
    ActsWithin a D (fun _ => True) (matching expected actual payload) := by
  unfold matching
  split
  · exact ActsWithin.pure trivial
  · exact ActsWithin.throw _

theorem within_encryptLayers {ids : List UInt32} {payload : Bytes}
    (hd : ∀ number, D a (.layerEncrypt number ids payload)) :
    ActsWithin a D (fun _ => True) (encryptLayers ids payload) := by
  refine ActsWithin.bind within_nextRequestId fun number _ => ?_
  refine ActsWithin.bind (within_askSessions (hd number)) fun reply _ => ?_
  split
  · exact within_matching _ _ _
  · exact ActsWithin.throw _

theorem within_decryptLayers {ids : List UInt32} {payload : Bytes}
    (hd : ∀ number, D a (.layerDecrypt number ids payload)) :
    ActsWithin a D (fun _ => True) (decryptLayers ids payload) := by
  refine ActsWithin.bind within_nextRequestId fun number _ => ?_
  refine ActsWithin.bind (within_askSessions (hd number)) fun reply _ => ?_
  split
  · exact within_matching _ _ _
  · exact ActsWithin.throw _

theorem within_updateDirectory (f : PeerDirectory → PeerDirectory) :
    Within a D (fun _ => True) (modify (updateDirectory f) : Program Node PUnit) := by
  apply Within.modify
  intro n
  refine ⟨?_, sessions_updateDirectory f n, ?_⟩
  · unfold updateDirectory
    split <;> rfl
  · unfold updateDirectory
    split <;> rfl

theorem within_closeSession {id : UInt32} (hd : D a (.sessionClose id)) :
    Within a D (fun _ => True) (closeSession id) := by
  refine Within.bind (within_updateDirectory _) fun _ _ => ?_
  refine Within.bind Within.get fun n hn => ?_
  rw [hn]
  exact within_notify none hd

end Sessions

/-! ### Peers -/

/-- What is said to peers may be sent to an address. -/
structure Peering (D : Address → Message → Prop) (dest : Address) : Prop where
  handshake : ∀ hostkey handshake, D dest (.incomingHandshake1 hostkey handshake)
  cell : ∀ link data, D dest (.tunnelData link data)
  drop : ∀ link, D dest (.tunnelDestroy link)

theorem Peering.of_all {dest : Address} (h : ∀ m, D dest m) : Peering D dest :=
  ⟨fun _ _ => h _, fun _ _ => h _, fun _ => h _⟩

theorem Peering.mono {D' : Address → Message → Prop} {dest : Address} (h : Peering D dest)
    (hD : ∀ m, D dest m → D' dest m) : Peering D' dest where
  handshake hostkey handshake := hD _ (h.handshake hostkey handshake)
  cell link data := hD _ (h.cell link data)
  drop link := hD _ (h.drop link)

section Peers
variable {dest : Address} {m : Message}

theorem within_askPeer (hd : D dest m) : ActsWithin a D (fun _ => True) (askPeer dest m) :=
  ActsWithin.after Within.get fun _ _ => within_request _ hd

theorem within_returnedHandshake (m : Message) :
    ActsWithin a D (fun _ => True) (returnedHandshake m) := by
  unfold returnedHandshake
  split
  · exact ActsWithin.pure trivial
  · exact ActsWithin.throw _

theorem within_deliverHandshake (hd : Peering D dest) (hostkey handshake : Bytes) :
    ActsWithin a D (fun _ => True) (deliverHandshake dest hostkey handshake) :=
  ActsWithin.bind (within_askPeer (hd.handshake hostkey handshake)) fun reply _ =>
    within_returnedHandshake reply

theorem within_sendCell (hd : Peering D dest) (link : UInt32) (data : Bytes) :
    ActsWithin a D (fun _ => True) (sendCell dest link data) := by
  refine ActsWithin.bind (within_askPeer (hd.cell link data)) fun reply _ => ?_
  split
  · exact ActsWithin.pure trivial
  · exact ActsWithin.throw _

theorem within_dropLink (hd : Peering D dest) (link : UInt32) :
    Within a D (fun _ => True) (dropLink dest link) :=
  Within.bind Within.get fun _ _ => within_notify _ (hd.drop link)

theorem within_ofFrame (r : Except FrameError α) :
    ActsWithin a D (fun c => r = .ok c) (ofFrame r) := by
  cases r with
  | ok c => exact ActsWithin.pure rfl
  | error e => exact ActsWithin.throw _

end Peers

/-! ### Owners -/

section Owners
variable {hop : Hop} {route : List OpenHop}

theorem within_relay (hown : ∀ m, D a m) (hd : ∀ first, route.head? = some first →
    Peering D first.address) (cell : Bytes) : ActsWithin a D (fun _ => True) (relay route cell) := by
  unfold relay
  split
  · exact ActsWithin.throw _
  next first hfirst =>
  refine ActsWithin.bind (within_encryptLayers fun _ => hown _) fun layered _ => ?_
  refine ActsWithin.bind (within_sendCell (hd first hfirst) _ _) fun reply _ => ?_
  exact within_decryptLayers fun _ => hown _

/-- A hop is spoken to directly if there is no route, else only the first hop of the route is. -/
theorem within_reachHop (hown : ∀ m, D a m) (hdirect : route = [] → Peering D hop.address)
    (hd : ∀ first, route.head? = some first → Peering D first.address) (handshake : Bytes) :
    ActsWithin a D (fun _ => True) (reachHop hop route handshake) := by
  refine ActsWithin.after Within.get fun n _ => ?_
  split
  · next hempty => exact within_deliverHandshake (hdirect (List.isEmpty_iff.1 hempty)) _ _
  · refine ActsWithin.bind (within_ofFrame _) fun incoming _ => ?_
    refine ActsWithin.bind (within_ofFrame _) fun command _ => ?_
    refine ActsWithin.bind (within_relay hown hd command) fun reply _ => ?_
    exact ActsWithin.bind (within_ofFrame _) fun m _ => within_returnedHandshake m

theorem within_openHop (hown : ∀ m, D a m) (hdirect : route = [] → Peering D hop.address)
    (hd : ∀ first, route.head? = some first → Peering D first.address) :
    ActsWithin a D (fun h => h.address = hop.address) (openHop hop route) := by
  refine ActsWithin.bind (within_startSession (hown _)) ?_
  rintro ⟨session, handshake⟩ -
  have hclose : ∀ e, ActsWithin a D (fun h => h.address = hop.address)
      (do closeSession session; throw e : Action OpenHop) := fun e =>
    ActsWithin.after (within_closeSession (hown _)) fun _ _ => ActsWithin.throw e
  refine ActsWithin.attempt (within_reachHop hown hdirect hd handshake) ?_ hclose
  rintro ⟨link, returned⟩ -
  refine ActsWithin.attempt (within_confirmSession (hown _)) ?_ ?_
  · intro _ _
    exact ActsWithin.after (within_updateDirectory _) fun _ _ => ActsWithin.pure rfl
  · intro e
    show ActsWithin a D _ (ite _ _ _ : Action OpenHop)
    split
    · next hempty =>
      exact ActsWithin.after (within_dropLink (hdirect (List.isEmpty_iff.1 hempty)) link)
        fun _ _ => hclose e
    · exact hclose e

theorem within_release {mode : TunnelMode} {hops : List OpenHop} (hown : ∀ m, D a m)
    (hd : ∀ h ∈ notified mode hops, Peering D h.address) :
    Within a D (fun _ => True) (release mode hops) := by
  refine Within.bind (Within.forM fun h hmem => within_dropLink (hd h hmem) h.link) fun _ _ => ?_
  refine Within.forM fun h _ => ?_
  exact Within.bind (within_closeSession (hown _)) fun _ _ => within_updateDirectory _

/-- The hops that the owner of a tunnel speaks to, by what stands for each hop. -/
def spokenTo (mode : TunnelMode) (hops : List α) : List α :=
  match mode with
  | .direct => hops
  | .relayed => hops.take 1

theorem mem_spokenTo_of_notified {mode : TunnelMode} {built : List OpenHop} {h : OpenHop}
    (hmem : h ∈ notified mode built) (rest : List Address) :
    h.address ∈ spokenTo mode (built.map (·.address) ++ rest) := by
  cases mode with
  | direct => exact List.mem_append_left _ (List.mem_map_of_mem hmem)
  | relayed =>
    cases built with
    | nil => cases hmem
    | cons first built =>
      obtain rfl := List.mem_singleton.1 hmem
      exact List.mem_singleton_self _

theorem within_openHops {mode : TunnelMode} {built : List OpenHop} {hops : List Hop}
    (hown : ∀ m, D a m)
    (hd : ∀ x ∈ spokenTo mode (built.map (·.address) ++ hops.map (·.address)), Peering D x) :
    ActsWithin a D (fun opened => opened.map (·.address) =
      built.map (·.address) ++ hops.map (·.address)) (openHops mode built hops) := by
  induction hops generalizing built with
  | nil => exact ActsWithin.pure (by simp)
  | cons hop rest ih =>
    have hopen : ActsWithin a D (fun h => h.address = hop.address)
        (openHop hop (routeBy mode built)) := by
      apply within_openHop hown
      · intro hroute
        apply hd
        cases mode with
        | direct => simp [spokenTo]
        | relayed => simp [spokenTo, show built = [] from hroute]
      · intro first hfirst
        apply hd
        cases mode with
        | direct => cases hfirst
        | relayed =>
          cases built with
          | nil => cases hfirst
          | cons h built =>
            obtain rfl := Option.some.inj hfirst
            exact List.mem_singleton_self _
    refine ActsWithin.attempt hopen ?_ ?_
    · intro h haddress
      have hsplit : (built ++ [h]).map (·.address) ++ rest.map (·.address) =
          built.map (·.address) ++ (hop :: rest).map (·.address) := by
        simp [haddress]
      rw [← hsplit] at hd ⊢
      exact ih hd
    · intro cause
      have hrelease : Within a D (fun _ => True) (release mode built) :=
        within_release hown fun h hmem => hd _ (mem_spokenTo_of_notified hmem _)
      exact ActsWithin.after hrelease fun _ _ => ActsWithin.throw _

theorem within_reserveTunnel : ActsWithin a D (fun _ => True) reserveTunnel := by
  refine ActsWithin.after Within.get fun n _ => ?_
  obtain ⟨id?, tunnels⟩ := n.tunnels.reserve
  refine ActsWithin.after (Within.modify fun _ => ⟨rfl, rfl, rfl⟩) fun _ _ => ?_
  cases id? with
  | ok id => exact ActsWithin.pure trivial
  | error e => exact ActsWithin.throw _

/-- A build speaks to the session service, and to every hop or the first one only. -/
theorem within_build {mode : TunnelMode} {hops : List Hop} (hown : ∀ m, D a m)
    (hd : ∀ x ∈ spokenTo mode (hops.map (·.address)), Peering D x) :
    ActsWithin a D (fun _ => True) (build mode hops) := by
  unfold build
  split
  · exact ActsWithin.throw _
  · refine ActsWithin.bind within_reserveTunnel fun id _ => ?_
    have hopened := @within_openHops a D mode [] hops hown hd
    refine ActsWithin.attempt hopened ?_ ?_
    · intro built _
      exact ActsWithin.after (Within.modify fun _ => ⟨rfl, rfl, rfl⟩) fun _ _ => ActsWithin.pure trivial
    · intro e
      exact ActsWithin.after (Within.modify fun _ => ⟨rfl, rfl, rfl⟩) fun _ _ => ActsWithin.throw _

theorem within_tunnel (id : UInt32) : ActsWithin a D (fun _ => True) (tunnel id) := by
  refine ActsWithin.after Within.get fun n _ => ?_
  split
  · exact ActsWithin.pure trivial
  · exact ActsWithin.throw _

theorem within_sendThrough {t : Tunnel} (hown : ∀ m, D a m)
    (hd : ∀ first, t.first? = some first → Peering D first.address) (payload : Bytes) :
    ActsWithin a D (fun _ => True) (match t.first? with
      | none => throw .emptyHopChain
      | some first => do
        let command ← ofFrame (Message.tunnelData endLink payload).encode
        sendCell first.address first.link (← encryptLayers t.layers command)) := by
  split
  · exact ActsWithin.throw _
  · next first hfirst =>
    refine ActsWithin.bind (within_ofFrame _) fun command _ => ?_
    refine ActsWithin.bind (within_encryptLayers fun _ => hown _) fun layered _ => ?_
    exact within_sendCell (hd first hfirst) _ _

theorem within_send (hown : ∀ m, D a m) (hany : ∀ dest, Peering D dest) (id : UInt32)
    (payload : Bytes) : ActsWithin a D (fun _ => True) (send id payload) :=
  ActsWithin.bind (within_tunnel id) fun _ _ =>
    within_sendThrough hown (fun first _ => hany first.address) payload

theorem within_receive (hown : ∀ m, D a m) (id : UInt32) (layered : Bytes) :
    ActsWithin a D (fun _ => True) (receive id layered) :=
  ActsWithin.bind (within_tunnel id) fun _ _ => within_decryptLayers fun _ => hown _

theorem within_takeTunnel (id : UInt32) : ActsWithin a D (fun _ => True) (takeTunnel id) := by
  refine ActsWithin.after (Within.modifyGet fun _ => ⟨rfl, rfl, rfl⟩) fun tunnel? _ => ?_
  cases tunnel? with
  | some t => exact ActsWithin.pure trivial
  | none => exact ActsWithin.throw _

theorem within_giveUp {t : Tunnel} (hown : ∀ m, D a m)
    (hd : ∀ h ∈ notified t.mode t.hops, Peering D h.address) :
    ActsWithin a D (fun _ => True) (release t.mode t.hops) :=
  Within.bind (within_release hown hd) fun _ _ => ActsWithin.pure trivial

theorem within_teardown (hown : ∀ m, D a m) (hany : ∀ dest, Peering D dest) (id : UInt32) :
    ActsWithin a D (fun _ => True) (teardown id) :=
  ActsWithin.bind (within_takeTunnel id) fun _ _ =>
    within_giveUp hown fun h _ => hany h.address

end Owners

/-! ### Clients -/

section Clients

theorem ActsWithin.mapM {γ : Type} {f : γ → Action α} {cs : List γ}
    (hf : ∀ c ∈ cs, ActsWithin a D (fun _ => True) (f c)) :
    ActsWithin a D (fun _ => True) (cs.mapM f) := by
  induction cs with
  | nil => exact ActsWithin.pure trivial
  | cons c cs ih =>
    rw [List.mapM_cons]
    refine ActsWithin.bind (hf c List.mem_cons_self) fun _ _ => ?_
    refine ActsWithin.bind (ih fun c' hc' => hf c' (List.mem_cons_of_mem c hc')) fun _ _ => ?_
    exact ActsWithin.pure trivial

theorem within_sample {sampler : Address} (hd : D sampler .rpsQuery) :
    ActsWithin a D (fun _ => True) (sample sampler) := by
  refine ActsWithin.after (Within.exchange none hd) fun o _ => ?_
  split
  · exact ActsWithin.pure trivial
  · exact ActsWithin.throw _
  · exact ActsWithin.throw _
  · exact ActsWithin.throw _

theorem within_routeTo (hsample : ∀ dest, D dest .rpsQuery) (destination : Hop) :
    ActsWithin a D (fun _ => True) (routeTo destination) := by
  refine ActsWithin.after Within.get fun n _ => ?_
  split
  · refine ActsWithin.bind (ActsWithin.mapM fun _ _ => within_sample (hsample _)) fun _ _ => ?_
    exact ActsWithin.pure trivial
  · exact ActsWithin.pure trivial

/-- A client has a tunnel built, used or torn down. -/
theorem within_answerClients (hown : ∀ m, D a m) (hany : ∀ dest, Peering D dest)
    (hsample : ∀ dest, D dest .rpsQuery) (m : Message) :
    Within a D (fun _ => True) (answerClients m) := by
  cases m with
  | tunnelBuild destination hostkey =>
    have hbuild : ActsWithin a D (fun _ => True) (buildFor ⟨destination, hostkey⟩) := by
      refine ActsWithin.bind (within_routeTo hsample _) fun hops _ => ?_
      exact ActsWithin.after Within.get fun _ _ => within_build hown fun _ _ => hany _
    refine Within.bind hbuild ?_
    rintro (_ | _) - <;> exact Within.pure trivial
  | tunnelData id payload =>
    have hexchange : ActsWithin a D (fun _ => True) (exchangeData id payload) :=
      ActsWithin.bind (within_send hown hany id payload) fun _ _ => within_receive hown id _
    refine Within.bind hexchange ?_
    rintro (_ | _) - <;> exact Within.pure trivial
  | tunnelDestroy id =>
    refine Within.bind (within_teardown hown hany id) ?_
    rintro (_ | _) - <;> exact Within.pure trivial
  | _ => exact Within.pure trivial

end Clients

end OnionTunnel.Node
