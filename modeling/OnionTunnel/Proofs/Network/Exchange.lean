import OnionTunnel.Proofs.Network.Balance

/-!
# Exchanges through tunnels

After any run a payload that is sent through a ready tunnel gets to the sink of the last hop, and
what the sink answers gets back to the owner. `Exchanged` says exactly when it does. Whatever comes
of an exchange, one delivery is the only trace of it.
-/

namespace OnionTunnel.Network

open Function SessionRegistry

variable {n : Nat} {S : Setting n} {now : Instant} {depth : Nat} {i : Fin n} {b b' : Books n}
  {legs : List (Leg n)} {id : UInt32} {L : Ledger n} {t : Line n} {net : Network n}

/-- Sends a payload through a tunnel, and later takes the layers off what has come back: what the
owner gets, unless that never ends, and the network then. -/
def exchangeAt (now later : Instant) (i : Fin n) (id : UInt32) (payload : Bytes) (net : Network n) :
    Option (Except TunnelError Bytes) × Network n :=
  match (act i (Node.send id payload).run).run now net with
  | (some (.ok layered), _, sent) =>
    let (res, _, received) := (act i (Node.receive id layered).run).run later sent
    (res, received)
  | (some (.error e), _, sent) => (some (.error e), sent)
  | (none, _, sent) => (none, sent)

/-- The reply that a delivery is answered with gets back through a route of some hops. -/
def Returns (hops : Nat) (answer : Except TunnelError Bytes) : Prop :=
  ∃ reply, answer = .ok reply ∧ FitsReply hops reply.length

/-- What comes of an exchange through a route: the last hop's answer if the payload and the answer
fit, and else a failure. The payload is delivered if it fits. -/
def Exchanged (S : Setting n) (b : Books n) (i : Fin n) (legs : List (Leg n)) (payload : Bytes)
    (res : Except TunnelError Bytes) (b' : Books n) : Prop :=
  (∃ l f answer, legs.getLast? = some l ∧ l.far? = some f ∧
    FitsCell legs.length (8 + payload.length) ∧
    b' = b.hand f.node ⟨l.hop.link, S.identity i, payload⟩ ∧
    (S.node f.node).answer (b f.node).handed ⟨l.hop.link, S.identity i, payload⟩ = answer ∧
    (Returns legs.length answer ∧ res = answer ∨
      ¬ Returns legs.length answer ∧ ∃ e, res = .error e)) ∨
  ((∃ l, legs.getLast? = some l ∧ l.far? = none) ∨ ¬ FitsCell legs.length (8 + payload.length)) ∧
    (∃ e, res = .error e) ∧ b' = b

/-- A delivery whose answer has come back, or not. -/
theorem Delivered.exchanged {payload : Bytes} {answer res : Except TunnelError Bytes}
    (h : Delivered S b i legs payload answer b') (hfits : FitsCell legs.length (8 + payload.length))
    (hres : Returns legs.length answer ∧ res = answer ∨
      ¬ Returns legs.length answer ∧ ∃ e, res = .error e) :
    Exchanged S b i legs payload res b' := by
  obtain ⟨l, f, hl, hfar, rfl, rfl⟩ | ⟨hlost, ⟨e, rfl⟩, rfl⟩ := h
  · exact .inl ⟨l, f, _, hl, hfar, hfits, rfl, rfl, hres⟩
  · refine .inr ⟨.inl hlost, ?_, rfl⟩
    obtain ⟨⟨_, ⟨⟩, -⟩, -⟩ | ⟨-, herror⟩ := hres
    exact herror

theorem not_returns_error (hops : Nat) (e : TunnelError) : ¬ Returns hops (.error e) := by
  rintro ⟨_, ⟨⟩, -⟩

theorem returns_ok {hops : Nat} {reply : Bytes} :
    Returns hops (.ok reply) ↔ FitsReply hops reply.length := by
  constructor
  · rintro ⟨_, ⟨⟩, hfits⟩
    exact hfits
  · exact fun hfits => ⟨reply, rfl, hfits⟩

/-- What a payload comes to that is not sent, or whose answer does not come back. -/
theorem exchanged_of_error {payload : Bytes} {e : TunnelError}
    (h : Went S b i legs payload (.error e) b') : Exchanged S b i legs payload (.error e) b' := by
  have hkeys : (homeward legs).length = legs.length := by simp [homeward]
  obtain ⟨hfits, ⟨_, _, ⟨⟩, -⟩ | ⟨-, hcome⟩⟩ | ⟨hlong, -, rfl⟩ := h
  · obtain ⟨e', hdelivered⟩ | ⟨reply, hdelivered, hlong⟩ := hcome
    · exact hdelivered.exchanged hfits (.inr ⟨not_returns_error _ _, e, rfl⟩)
    · refine hdelivered.exchanged hfits (.inr ⟨?_, e, rfl⟩)
      rw [returns_ok]
      rintro ⟨-, hfit⟩
      rw [hkeys, layerReplyHeader] at hlong
      omega
  · exact .inr ⟨.inr hlong, ⟨e, rfl⟩, rfl⟩

/-- What a payload comes to whose answer comes back, once the layers are taken off. -/
theorem does_receive_of_went (hS : S.Own) {t : Tunnel}
    (hready : (b i).slot id = some (.ready t)) (hlayers : t.layers = relayOrder t.hops)
    (hhops : t.hops = legs.map (·.hop)) (hroute : Route S b i legs) {payload blob : Bytes}
    (h : Went S b i legs payload (.ok blob) b') :
    Does S (fun _ => True) now (depth + 1) i b' (Node.receive id blob)
      (Exchanged S b i legs payload) := by
  have hkept := h.kept
  obtain ⟨hfits, ⟨reply, _, ⟨⟩, hdelivered, hpeels, -⟩ | ⟨⟨_, ⟨⟩⟩, -⟩⟩ | ⟨-, ⟨_, ⟨⟩⟩, -⟩ := h
  have hroute' : Route S b' i legs := hroute.congr fun j x _ =>
    ⟨by rw [(hkept j).1], by rw [(hkept j).2.1]⟩
  refine (does_receive hS ((congrFun (hkept i).2.2 id).trans hready) hlayers hhops hroute'.held
    hpeels).mono ?_
  rintro res _ ⟨rfl, hres⟩
  apply hdelivered.exchanged hfits
  rwa [returns_ok]

/-- An exchange through a ready tunnel that is one route. -/
theorem exchangeAt_ends (hS : S.Honest) (hset : net.setting = S) (hsound : Sound S net.books L)
    (ht : L i id = some t) (hroute : (t.tunnel id).IsRoute) (payload : Bytes)
    (now later : Instant) :
    ∃ res net', exchangeAt now later i id payload net = (some res, net') ∧ net'.setting = S ∧
      Exchanged S net.books i t.legs payload res net'.books := by
  have hlisted := hsound.listed i id t ht
  obtain ⟨hline, hlayers, hshort⟩ := (hlisted.upright hroute).isRoute rfl hroute
  have hready := hsound.slot_eq ht
  obtain ⟨sent, net₁, hsent, hset₁, hwent⟩ := act_of_leads now hset
    (does_send hS.own (le_depth net) hready hlayers rfl hlisted.nonempty hshort hline payload)
  unfold exchangeAt
  rw [hsent]
  cases sent with
  | error e => exact ⟨_, net₁, rfl, hset₁, exchanged_of_error hwent⟩
  | ok blob =>
    obtain ⟨d, hd⟩ : ∃ d, net₁.depth = d + 1 := ⟨net₁.depth - 1, by have := le_depth net₁; omega⟩
    obtain ⟨res, net₂, hreceived, hset₂, hexchanged⟩ := act_of_leads later hset₁ (hd ▸
      does_receive_of_went hS.own hready hlayers rfl hline hwent)
    exact ⟨res, net₂, by simp [hreceived], hset₂, hexchanged⟩

/-! ### Exchanges after a run -/

/-- A payload has been handed to the sink of the last hop of a tunnel, with the hop's link and the
owner's identity. -/
def HandedOver (S : Setting n) (b : Books n) (i : Fin n) (id : UInt32) (t : Tunnel)
    (payload : Bytes) (h : OpenHop) (j : Fin n) (b' : Books n) : Prop :=
  HopAt S b ⟨i, id, t.hops.length - 1⟩ t h j ∧ b' = b.hand j ⟨h.link, S.identity i, payload⟩

/-- What the sink of a node answers to a payload that comes on the link of a hop. -/
def answerAt (S : Setting n) (b : Books n) (i : Fin n) (payload : Bytes) (h : OpenHop) (j : Fin n) :
    Except TunnelError Bytes :=
  (S.node j).answer (b j).handed ⟨h.link, S.identity i, payload⟩

theorem legAt_last (ht : L i id = some t) {l : Leg n} (hl : t.legs.getLast? = some l) :
    LegAt L ⟨i, id, (t.tunnel id).hops.length - 1⟩ t l := by
  refine ⟨ht, ?_⟩
  rw [← hl, List.getLast?_eq_getElem?]
  simp [Line.tunnel]

/-- What may come of an exchange: the answer of the last hop's sink, to which the payload was handed
over; or a failure, which leaves no more behind than that. It fails only if the payload or the answer
does not fit, the sink fails, or no node is at the last hop. -/
def Comes (S : Setting n) (b : Books n) (i : Fin n) (id : UInt32) (t : Tunnel) (payload : Bytes)
    (res : Except TunnelError Bytes) (b' : Books n) : Prop :=
  (∃ hop j reply, HandedOver S b i id t payload hop j b' ∧
    answerAt S b i payload hop j = .ok reply ∧ res = .ok reply) ∨
  (∃ e, res = .error e) ∧ (b' = b ∨ ∃ hop j, HandedOver S b i id t payload hop j b') ∧
    ∀ hop j, HopAt S b ⟨i, id, t.hops.length - 1⟩ t hop j →
      FitsCell t.hops.length (8 + payload.length) →
      ¬ Returns t.hops.length (answerAt S b i payload hop j)

/-- What comes of an exchange, as the tunnel has it: the last hop is at a node exactly if its leg
has an end. -/
theorem Exchanged.comes (hsound : Sound S b L) (ht : L i id = some t) (hstands : Upright S b i t)
    {payload : Bytes} {res : Except TunnelError Bytes} (h : Exchanged S b i t.legs payload res b') :
    Comes S b i id (t.tunnel id) payload res b' := by
  unfold Comes
  have hcount : (t.tunnel id).hops.length = t.legs.length := by simp [Line.tunnel]
  have hunique : ∀ {l : Leg n} {hop : OpenHop} {j : Fin n}, t.legs.getLast? = some l →
      HopAt S b ⟨i, id, (t.tunnel id).hops.length - 1⟩ (t.tunnel id) hop j →
      hop = l.hop ∧ ∀ f, l.far? = some f → j = f.node := by
    intro l hop j hl hat
    have hlast := legAt_last ht hl
    have hhop : (t.tunnel id).hops[(t.tunnel id).hops.length - 1]? = some l.hop := by
      have hget := congrArg (Option.map Leg.hop) hlast.2
      rwa [← List.getElem?_map] at hget
    obtain rfl := Option.some.inj (hat.hop.symm.trans hhop)
    exact ⟨rfl, fun f hfar => hsound.node_eq hstands hlast hfar hat⟩
  rw [hcount] at hunique ⊢
  obtain ⟨l, f, answer, hl, hfar, hfits, rfl, hanswer, hres⟩ | ⟨hlost, herror, rfl⟩ := h
  · have hlast := hcount ▸ legAt_last ht hl
    have hover : HandedOver S b i id (t.tunnel id) payload l.hop f.node _ :=
      ⟨hcount.symm ▸ (hsound.booked hstands hlast hfar).toHopAt, rfl⟩
    obtain ⟨⟨reply, rfl, -⟩, rfl⟩ | ⟨hreturns, herror⟩ := hres
    · exact .inl ⟨l.hop, f.node, reply, hover, hanswer, rfl⟩
    · refine .inr ⟨herror, .inr ⟨l.hop, f.node, hover⟩, ?_⟩
      intro hop j hat _
      obtain ⟨rfl, hnode⟩ := hunique hl hat
      rwa [hnode f hfar, show answerAt S b i payload l.hop f.node = answer from hanswer]
  · refine .inr ⟨herror, .inl rfl, ?_⟩
    intro hop j hat hfits
    obtain ⟨l, hl, hfar⟩ | hlong := hlost
    · -- Where a leg has no end a session service answers, and no hop.
      obtain ⟨rfl, -⟩ := hunique hl hat
      have hlast := legAt_last ht hl
      obtain ⟨k, hdest⟩ := hstands.sessions_of_far hlast.mem hfar
      have hdialled := hat.dialled
      rw [hcount] at hlast
      rw [hstands.dialled_eq _ l hlast.2] at hdest
      rw [show (t.tunnel id).mode = t.mode from rfl] at hdialled
      cases hdest.symm.trans hdialled
    · exact (hlong hfits).elim

/-- Whatever has arisen by calls of honest nodes, an exchange through a ready tunnel that is one route
gives what the sink of its last hop answers to the payload, or fails. Either way one delivery at the
last hop is all that may be left of it: sessions, links and tunnels are as they were. -/
theorem exchange_of_arises (hS : S.Honest) (hinverts : ∀ i, (S.node i).registry.keypair.Inverts)
    (h : Arises S net) {t : Tunnel} (hready : (net.books i).slot id = some (.ready t))
    (hroute : t.IsRoute) (payload : Bytes) (now later : Instant) :
    ∃ res net', exchangeAt now later i id payload net = (some res, net') ∧ net'.setting = S ∧
      Kept net.books net'.books ∧ Comes S net.books i id t payload res net'.books := by
  obtain ⟨hset, L, hsound⟩ := h.ledger hS hinverts
  obtain ⟨t, ht, rfl⟩ := hsound.ready hready
  obtain ⟨res, net', hrun, hset', hexchanged⟩ := exchangeAt_ends hS hset hsound ht hroute payload
    now later
  refine ⟨res, net', hrun, hset', ?_,
    hexchanged.comes hsound ht ((hsound.listed i id t ht).upright hroute)⟩
  obtain ⟨l, f, answer, -, -, -, hbooks, -⟩ | ⟨-, -, hbooks⟩ := hexchanged
  · rw [hbooks]
    exact fun j => ⟨by simp, by simp, by simp⟩
  · rw [hbooks]
    exact Kept.refl _

/-- What is left of a call of the node on its own. -/
def loopAfter (c : Call) (net : Network 1) : Network 1 :=
  ((act (Fin.last 0) c.program).run 0 net).2.2

/-- The node on its own with a relayed tunnel of one hop and a direct one of two. -/
def twiceBuilt : Network 1 :=
  loopAfter (.build .direct [loopHop, loopHop]) (loopAfter (.build .relayed [loopHop]) loopback)

/-- The node as an open hop of its own tunnels. -/
def openLoopHop (session link : UInt32) : OpenHop :=
  ⟨session, link, loopHop.address, loopHop.identity⟩

theorem slot_twiceBuilt :
    (twiceBuilt.books 0).slot 1 =
      some (.ready ⟨1, .relayed, [openLoopHop 1 2], loopHop.hostkey⟩) ∧
    (twiceBuilt.books 0).slot 2 =
      some (.ready ⟨2, .direct, [openLoopHop 3 4, openLoopHop 5 6], loopHop.hostkey⟩) := by
  decide +kernel

theorem twiceBuilt_arises : Arises loopback.setting twiceBuilt := by
  have hinverts : ∀ j, (loopback.setting.node j).registry.keypair.Inverts :=
    fun j => (loopback_fit j).inverts
  have hbuild : ∀ {net : Network 1} {mode : TunnelMode} {hops : List Hop},
      Arises loopback.setting net → (∀ hop ∈ hops, hop = loopHop) →
      Arises loopback.setting (loopAfter (.build mode hops) net) := by
    intro net mode hops h hhops
    obtain ⟨hset, -⟩ := h.ledger loopback_honest hinverts
    have hgenuine : Genuine net.setting mode hops := hset ▸ loopHop_genuine hhops
    obtain ⟨net', hrun, harises⟩ := h.goes_on loopback_honest hinverts 0 0 (.build mode hops)
      (.inl hgenuine)
    have hafter : loopAfter (.build mode hops) net = net' := congrArg (fun r => r.2.2) hrun
    rwa [hafter]
  exact hbuild (hbuild (.blank rfl loopback_blank) (by simp)) (by simp)

/-- A node exchanges data with itself after it has sent a payload astray, through a direct tunnel in
which it is both hops. -/
theorem exchange_of_arises_twiceBuilt :
    ∃ (strayed : Network 1) (t d : Tunnel),
      (twiceBuilt.books 0).slot 2 = some (.ready d) ∧ ¬ d.IsRoute ∧
      (act 0 (Call.send 2 [4, 5]).program).run 0 twiceBuilt = (some (), 0, strayed) ∧
      Arises loopback.setting strayed ∧ (strayed.books 0).slot 1 = some (.ready t) ∧ t.IsRoute ∧
      ∃ res net', exchangeAt 0 0 0 1 [1, 2, 3] strayed = (some res, net') ∧
        net'.setting = loopback.setting ∧ Kept strayed.books net'.books ∧
        Comes loopback.setting strayed.books 0 1 t [1, 2, 3] res net'.books := by
  have hinverts : ∀ j, (loopback.setting.node j).registry.keypair.Inverts :=
    fun j => (loopback_fit j).inverts
  obtain ⟨hrelayed, hdirect⟩ := slot_twiceBuilt
  obtain ⟨hset, L, hsound⟩ := twiceBuilt_arises.ledger loopback_honest hinverts
  obtain ⟨strayed, hrun, -, hslot, -⟩ := send_ends loopback_honest hset hsound 0 0 2 [4, 5]
  have harises : Arises loopback.setting strayed :=
    .call (c := .send 2 [4, 5]) twiceBuilt_arises trivial hrun
  have hready := (congrFun (hslot 0) 1).trans hrelayed
  exact ⟨strayed, _, _, hdirect, by simp [Tunnel.IsRoute], hrun, harises, hready, .inl rfl,
    exchange_of_arises loopback_honest hinverts harises hready (.inl rfl) [1, 2, 3] 0 0⟩

end OnionTunnel.Network
