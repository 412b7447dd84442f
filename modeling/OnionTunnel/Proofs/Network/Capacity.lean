import OnionTunnel.Proofs.Network.Chains
import OnionTunnel.Proofs.Network.Exchange
import OnionTunnel.Proofs.Network.Medium

/-!
# How much a tunnel carries

A payload gets through a tunnel, and a reply back, exactly up to a length that depends on the number
of hops alone. Each hop adds the same overhead to both. On the way out the longest message is the
request in which the first hop has its layer taken off; on the way back it is the request in which
the owner has all layers taken off, and which lists every session.

Nothing is assumed of a network but that the tunnel has been built in it, or in an earlier state of
it, through the nodes whose hostkeys were given, and that it is still as it was built. What else
answers there, and what else has happened, is of no importance.
-/

namespace OnionTunnel.Network

open Function SessionRegistry

variable {n : Nat} {S S' : Setting n} {V : Network n → Prop} {now : Instant} {depth : Nat}
  {i : Fin n} {b b' : Books n} {legs : List (Leg n)} {id : UInt32} {net₀ net₁ net : Network n}
  {mode : TunnelMode} {hops : List Hop} {t : Tunnel}

/-! ### What has been built -/

/-- Every hop of a list is dialled where the peers of the node answer whose hostkey was given, and
the node's keypair decrypts what is encrypted with that hostkey. -/
def Homes (S : Setting n) (mode : TunnelMode) (hops : List Hop) : Prop :=
  ∀ k hop, hops[k]? = some hop → ∃ j, S.serviceAt? (dialledAt mode k hop.address) = some ⟨j, .peers⟩ ∧
    hop.hostkey = (S.node j).registry.keypair.hostkey ∧ (S.node j).registry.keypair.Inverts

theorem homes_of_settled (hinverts : ∀ j, (S.node j).registry.keypair.Inverts)
    (h : ∀ hop ∈ hops, Settled S hop) : Homes S mode hops := by
  intro k hop hk
  have hsettled := h hop (List.mem_of_getElem? hk)
  obtain ⟨j, hplace, hhostkey⟩ := hsettled.home
  rw [hsettled.dialledAt_eq]
  exact ⟨j, hplace, hhostkey, hinverts j⟩

theorem Homes.unscripted (h : Homes S mode hops) {k : Nat} {hop : Hop} (hk : hops[k]? = some hop) :
    S.Unscripted (dialledAt mode k hop.address) := by
  obtain ⟨j, hplace, -⟩ := h k hop hk
  exact Setting.unscripted_of_serviceAt? hplace

theorem Homes.trusted (h : Homes S mode hops) (i : Fin n) :
    AllTrusted S V now i mode 0 hops := by
  intro k hop hk j hdest net _ _
  obtain ⟨j', hplace, hhostkey, hinverts⟩ := h k hop hk
  rw [Nat.zero_add, hplace] at hdest
  obtain ⟨⟩ := Option.some.inj hdest
  rw [hhostkey]
  exact faithful_of_inverts _ now hinverts

/-- Every hop of a tunnel that has been laid through such hops has an end at a node. -/
theorem Laid.far {destination : Hop} (h : Laid S b i mode hops id destination legs)
    (hhomes : Homes S mode hops) : ∀ l ∈ legs, l.far? ≠ none := by
  apply h.far_of_clear
  · intro k hop hk j hsessions
    obtain ⟨j', hplace, -⟩ := hhomes k hop hk
    rw [Nat.zero_add, hplace] at hsessions
    cases hsessions
  · apply leading_of_named (k := hops.length)
    rw [List.take_length]
    exact h.named

/-- A build that has succeeded has laid a tunnel. -/
theorem laid_of_build (hinverts : (net₀.setting.node i).registry.keypair.Inverts)
    (hS : net₀.setting.Own) (hhomes : Homes net₀.setting mode hops) {later : Instant}
    (hbuild : (act i (Node.build mode hops).run).run now net₀ = (some (.ok id), later, net₁)) :
    net₁.setting = net₀.setting ∧
      ∃ destination legs, Laid net₁.setting net₁.books i mode hops id destination legs := by
  obtain ⟨res, net', hrun, hset, hbuilt⟩ := act_of_leads now rfl
    (does_build_along hS hinverts (le_depth net₀) (fun _ _ hk => hhomes.unscripted hk)
      (hhomes.trusted i))
  have hend := hrun.symm.trans hbuild
  simp only [Prod.mk.injEq, Option.some.injEq] at hend
  obtain ⟨rfl, rfl, rfl⟩ := hend
  refine ⟨hset, ?_⟩
  rw [hset]
  obtain ⟨_, destination, legs, ⟨⟩, -, -, hlaid⟩ | ⟨_, ⟨⟩, -⟩ := hbuilt
  exact ⟨destination, legs, hlaid⟩

/-! ### What has become of it -/

/-- A tunnel is as it was in an earlier network. Its hops answer where they did, the owner has the
same hostkey, and no link and no session of the tunnel has been closed. -/
structure Upheld (net₁ net : Network n) (i : Fin n) (id : UInt32) (t : Tunnel) : Prop where
  identity_eq : net.setting.identity i = net₁.setting.identity i
  hop : ∀ k h j, HopAt net₁.setting net₁.books ⟨i, id, k⟩ t h j →
    HopAt net.setting net.books ⟨i, id, k⟩ t h j
  started : ∀ h ∈ t.hops, (net.books i).session h.session = (net₁.books i).session h.session
  accepted : ∀ k h j, HopAt net₁.setting net₁.books ⟨i, id, k⟩ t h j →
    (net.books j).session h.link = (net₁.books j).session h.link ∧
      (net.books j).link h.link = (net₁.books j).link h.link

/-- A route stands wherever its hops answer as they did and its own ends are the same. -/
theorem Route.transfer (hroute : Route S b i legs) (hidentity : S'.identity i = S.identity i)
    (hnear : ∀ l ∈ legs, (b' i).session l.hop.session = (b i).session l.hop.session)
    (hfar : ∀ l ∈ legs, ∃ f, l.far? = some f ∧ S'.serviceAt? l.dialled = some ⟨f.node, .peers⟩ ∧
      (b' f.node).session l.hop.link = (b f.node).session l.hop.link ∧
      (b' f.node).link l.hop.link = (b f.node).link l.hop.link) : Route S' b' i legs where
  linked := by
    have hlinked := hroute.linked
    rw [hidentity]
    clear hroute hnear
    induction legs with
    | nil => trivial
    | cons l rest ih =>
        obtain ⟨f, hf, hplace, -, hlink⟩ := hfar l (by simp)
        refine ⟨?_, ih (fun l' hl' => hfar l' (List.mem_cons_of_mem l hl')) hlinked.2⟩
        have hreached := hlinked.1
        unfold Reached at hreached ⊢
        simp only [hf] at hreached ⊢
        exact ⟨hplace, hlink.trans hreached.2⟩
  held l hl := by
    have hheld := hroute.held l hl
    refine ⟨⟨(hnear l hl).trans hheld.near.started, hheld.near.handshake_eq, hheld.near.usable⟩, ?_⟩
    intro f hf
    obtain ⟨f', hf', -, hsession, -⟩ := hfar l hl
    obtain rfl := Option.some.inj (hf'.symm.trans hf)
    have hfarHeld := hheld.far f' hf
    exact ⟨hsession.trans hfarHeld.accepted, hfarHeld.handshake_eq,
      hfarHeld.peer_eq.trans hidentity.symm, hfarHeld.usable, hfarHeld.paired⟩
  first := hroute.first

/-- The hop of a leg is at the node where the leg ends. -/
theorem Laid.hopAt {destination : Hop} (h : Laid S b i mode hops id destination legs) {k : Nat}
    {l : Leg n} (hl : legs[k]? = some l) {f : Far n} (hf : l.far? = some f) :
    HopAt S b ⟨i, id, k⟩ ⟨id, mode, legs.map (·.hop), destination.hostkey⟩ l.hop f.node where
  slot := h.ready
  hop := by simp [hl]
  dialled := by
    show S.serviceAt? (dialledAt mode k l.hop.address) = _
    rw [← h.dialled_eq k l hl]
    exact h.place (List.mem_of_getElem? hl) hf

/-- A tunnel that has been laid through homes and is upheld is one route, if its hops pass cells on
or there is only one. -/
theorem Upheld.route {destination : Hop} (h : Upheld net₁ net i id t)
    (hlaid : Laid net₁.setting net₁.books i mode hops id destination legs)
    (hfar : ∀ l ∈ legs, l.far? ≠ none)
    (ht : (net₁.books i).slot id = some (.ready t)) (hroute : t.IsRoute) :
    Route net.setting net.books i legs ∧ t.layers = relayOrder t.hops ∧ legs.length ≤ 256 ∧
      t.hops = legs.map (·.hop) := by
  obtain rfl : t = ⟨id, mode, legs.map (·.hop), destination.hostkey⟩ := by
    simpa using ht.symm.trans hlaid.ready
  obtain ⟨hbuilt, hlayers, hshort⟩ := hlaid.toLined.isRoute rfl hroute
  refine ⟨hbuilt.transfer h.identity_eq ?_ ?_, hlayers, hshort, rfl⟩
  · intro l hl
    exact h.started l.hop (List.mem_map_of_mem hl)
  · intro l hl
    obtain ⟨f, hf⟩ := Option.ne_none_iff_exists'.1 (hfar l hl)
    obtain ⟨k, hk⟩ := List.mem_iff_getElem?.1 hl
    have hat := hlaid.hopAt hk hf
    refine ⟨f, hf, ?_, h.accepted k l.hop f.node hat⟩
    rw [hlaid.dialled_eq k l hk]
    exact (h.hop k l.hop f.node hat).dialled

/-! ### How much gets through -/

/-- A payload is sent through a ready tunnel that is one route, and the answer is taken back. -/
theorem does_exchangeData (hS : S.Own) (hdepth : 260 ≤ depth)
    (hready : (b i).slot id = some (.ready t)) (hlayers : t.layers = relayOrder t.hops)
    (hhops : t.hops = legs.map (·.hop)) (hne : legs ≠ []) (hshort : legs.length ≤ 256)
    (hroute : Route S b i legs) (payload : Bytes) :
    Does S (fun _ => True) now depth i b (Node.exchangeData id payload)
      (Exchanged S b i legs payload) := by
  obtain ⟨d, rfl⟩ : ∃ d, depth = d + 1 := ⟨depth - 1, by omega⟩
  refine (does_send hS hdepth hready hlayers hhops hne hshort hroute payload).bind ?_ ?_
  · intro blob b' hwent
    exact does_receive_of_went hS hready hlayers hhops hroute hwent
  · intro e b' hwent
    exact exchanged_of_error hwent

theorem fitsCell_iff {hops length : Nat} :
    FitsCell hops (8 + length) ↔ hops ≤ 255 ∧ length + 48 * hops ≤ 65515 := by
  have hoverhead : Sealed.overhead = 48 := rfl
  have hmax : maxPayload = 65531 := rfl
  unfold FitsCell
  rw [hoverhead, hmax]
  omega

theorem fitsReply_iff {hops length : Nat} :
    FitsReply hops length ↔ hops ≤ 255 ∧ length + 52 * hops ≤ 65527 := by
  have hoverhead : Sealed.overhead = 48 := rfl
  have hmax : maxPayload = 65531 := rfl
  unfold FitsReply
  rw [hoverhead, hmax]
  omega

/-- What comes of a delivery that is to be made at a node, and of the sink's answer to it, by the
number of hops alone. The exchange succeeds exactly if payload and reply get through, and the reply is
what the owner gets. The delivery is made if the payload gets through, once and at that node only;
else no sink is called. -/
structure Gauged (b : Books n) (j : Fin n) (d : Delivery) (hops : Nat)
    (answer : Except TunnelError Bytes) (res : Except TunnelError Bytes) (b' : Books n) : Prop where
  succeeds : ∀ reply, answer = .ok reply → ((∃ out, res = .ok out) ↔
    hops ≤ 255 ∧ d.payload.length + 48 * hops ≤ 65515 ∧ reply.length + 52 * hops ≤ 65527)
  answered : ∀ out, res = .ok out → answer = .ok out
  unheard : ¬ (hops ≤ 255 ∧ d.payload.length + 48 * hops ≤ 65515) →
    ∀ k, (b' k).handed = (b k).handed
  heard : hops ≤ 255 → d.payload.length + 48 * hops ≤ 65515 →
    ∀ k, (b' k).handed = if k = j then (b k).handed ++ [d] else (b k).handed

/-- What comes of an exchange through a route that ends at a node. -/
theorem Exchanged.gauged {payload : Bytes} {res : Except TunnelError Bytes}
    (h : Exchanged S b i legs payload res b') {l : Leg n} {f : Far n}
    (hl : legs.getLast? = some l) (hf : l.far? = some f) :
    Gauged b f.node ⟨l.hop.link, S.identity i, payload⟩ legs.length
      (answerAt S b i payload l.hop f.node) res b' := by
  obtain ⟨l', f', answer, hl', hf', hfits, rfl, hanswer, hres⟩ | ⟨hlost | hlong, ⟨e, rfl⟩, rfl⟩ := h
  · obtain rfl := Option.some.inj (hl'.symm.trans hl)
    obtain rfl := Option.some.inj (hf'.symm.trans hf)
    obtain rfl : answerAt S b i payload l'.hop f'.node = answer := hanswer
    obtain ⟨hcount, hpayload⟩ := fitsCell_iff.1 hfits
    constructor
    case succeeds =>
      intro reply hreply
      rw [hreply, returns_ok, fitsReply_iff] at hres
      obtain ⟨⟨-, hshort⟩, rfl⟩ | ⟨hlong, e, rfl⟩ := hres
      · exact ⟨fun _ => ⟨hcount, hpayload, hshort⟩, fun _ => ⟨reply, rfl⟩⟩
      · constructor
        · rintro ⟨_, ⟨⟩⟩
        · rintro ⟨-, -, hshort⟩
          exact (hlong ⟨hcount, hshort⟩).elim
    case answered =>
      rintro out rfl
      obtain ⟨-, hout⟩ | ⟨-, _, ⟨⟩⟩ := hres
      exact hout.symm
    case unheard => exact fun hlong => (hlong ⟨hcount, hpayload⟩).elim
    case heard =>
      intro _ _ k
      simp only [Books.hand_apply]
  · obtain ⟨l', hl', hf'⟩ := hlost
    obtain rfl := Option.some.inj (hl'.symm.trans hl)
    cases hf'.symm.trans hf
  · rw [fitsCell_iff] at hlong
    constructor
    case succeeds =>
      intro reply _
      constructor
      · rintro ⟨_, ⟨⟩⟩
      · rintro ⟨hcount, hpayload, -⟩
        exact (hlong ⟨hcount, hpayload⟩).elim
    case answered => rintro out ⟨⟩
    case unheard => exact fun _ _ => rfl
    case heard => exact fun hcount hpayload => (hlong ⟨hcount, hpayload⟩).elim

/-- How much a tunnel carries. Through a tunnel that has been built through the nodes whose hostkeys
were given, and is upheld, an exchange of data succeeds exactly if there are no more than 255 hops
and if payload and reply are short enough for them. A payload that is too long is not delivered; one
whose reply is too long is delivered once all the same. An exchange that succeeds comes to the same
over a medium that carries nothing but frames of at most 65535 bytes. -/
theorem exchange_capacity {built later : Instant} (hS₀ : net₀.setting.Own)
    (hinverts : (net₀.setting.node i).registry.keypair.Inverts)
    (hhomes : Homes net₀.setting mode hops)
    (hbuild : (act i (Node.build mode hops).run).run built net₀ = (some (.ok id), later, net₁))
    (ht : (net₁.books i).slot id = some (.ready t)) (hroute : mode = .relayed ∨ hops.length = 1)
    (hS : net.setting.Own) (hupheld : Upheld net₁ net i id t) (payload : Bytes) (now : Instant) :
    ∃ h j res net', HopAt net.setting net.books ⟨i, id, hops.length - 1⟩ t h j ∧
      (act i (Node.exchangeData id payload).run).run now net = (some res, now, net') ∧
      Gauged net.books j ⟨h.link, net.setting.identity i, payload⟩ hops.length
        (answerAt net.setting net.books i payload h j) res net'.books ∧
      ((∃ out, res = .ok out) →
        (actOver Message.framed i (Node.exchangeData id payload).run).run now net =
          (some res, now, net')) := by
  obtain ⟨hset, destination, legs, hlaid⟩ := laid_of_build hinverts hS₀ hhomes hbuild
  have hfar := hlaid.far (hset ▸ hhomes)
  have hcount : legs.length = hops.length := by simpa using congrArg List.length hlaid.named
  have ht' : t = ⟨id, mode, legs.map (·.hop), destination.hostkey⟩ := by
    simpa using ht.symm.trans hlaid.ready
  have hisRoute : t.IsRoute := by
    rw [ht', Tunnel.IsRoute]
    simpa [hcount] using hroute
  obtain ⟨hline, hlayers, hshort, hhops⟩ := hupheld.route hlaid hfar ht hisRoute
  have hne : legs ≠ [] := by
    rintro rfl
    have hlast := hlaid.last
    rw [List.length_eq_zero_iff.1 hcount.symm] at hlast
    cases hlast
  obtain ⟨l, hl⟩ := Option.ne_none_iff_exists'.1 (mt List.getLast?_eq_none_iff.1 hne)
  obtain ⟨f, hf⟩ := Option.ne_none_iff_exists'.1 (hfar l (List.mem_of_getLast? hl))
  have hat : HopAt net.setting net.books ⟨i, id, hops.length - 1⟩ t l.hop f.node := by
    apply hupheld.hop
    rw [ht', ← hcount]
    exact hlaid.hopAt (List.getLast?_eq_getElem? ▸ hl) hf
  obtain ⟨res, net', hends, -, hexchanged⟩ := does_exchangeData hS (le_depth net) hat.slot hlayers
    hhops hne hshort hline payload net rfl rfl (Timed.Sees.always (fun _ => trivial) _ _)
  refine ⟨l.hop, f.node, res, net', hat, hends.run_eq, hcount ▸ hexchanged.gauged hl hf, ?_⟩
  rintro ⟨out, rfl⟩
  exact (passes_exchangeData hS (le_depth net) hat.slot hlayers hhops hne hshort hline payload net
    rfl rfl out net' hends).run_eq

/-- A node exchanges data with itself through a tunnel in which it is both hops. -/
theorem exchange_capacity_loopback :
    ∃ (net : Network 1) (id : UInt32) (t : Tunnel),
      (act 0 (Node.build .relayed [loopHop, loopHop]).run).run 0 loopback =
        (some (.ok id), 0, net) ∧
      (net.books 0).slot id = some (.ready t) ∧ Upheld net net 0 id t ∧
      ∃ h j res net', HopAt net.setting net.books ⟨0, id, 1⟩ t h j ∧
        (act 0 (Node.exchangeData id [1, 2, 3]).run).run 0 net = (some res, 0, net') ∧
        Gauged net.books j ⟨h.link, net.setting.identity 0, [1, 2, 3]⟩ 2
          (answerAt net.setting net.books 0 [1, 2, 3] h j) res net'.books ∧
        ((∃ out, res = .ok out) →
          (actOver Message.framed 0 (Node.exchangeData id [1, 2, 3]).run).run 0 net =
            (some res, 0, net')) := by
  have hinverts : ∀ j, (loopback.setting.node j).registry.keypair.Inverts :=
    fun j => (loopback_fit j).inverts
  have hsettled : ∀ hop ∈ [loopHop, loopHop], Settled loopback.setting hop := by
    simpa using loopHop_settled
  obtain ⟨net, id, t, hbuild, hset, hready⟩ :=
    loopback_builds (List.cons_ne_nil _ _) (welcome_of_settled hsettled) (by decide)
  have hupheld : Upheld net net 0 id t := ⟨rfl, fun _ _ _ h => h, fun _ _ => rfl,
    fun _ _ _ _ => ⟨rfl, rfl⟩⟩
  exact ⟨net, id, t, hbuild, hready, hupheld, exchange_capacity loopback_honest.own (hinverts 0)
    (homes_of_settled hinverts hsettled) hbuild hready (.inl rfl) (hset ▸ loopback_honest.own)
    hupheld [1, 2, 3] 0⟩

end OnionTunnel.Network
