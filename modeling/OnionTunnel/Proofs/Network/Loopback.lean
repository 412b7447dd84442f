import OnionTunnel.Proofs.Network.Honest
import OnionTunnel.Proofs.Network.Runs
import OnionTunnel.Proofs.Node.Success

/-!
# Runs that build

A run goes on to a network with one more ready tunnel if the hops are dialled where nodes answer
with the right keypairs. `loopback` is a network of one node, which is every hop of its own tunnels.
-/

namespace OnionTunnel

namespace Network

open Function SessionRegistry

variable {n : Nat} {S : Setting n} {net : Network n} {i : Fin n} {mode : TunnelMode}
  {hops : List Hop} {admits : Fin n → TunnelMode → List Hop → Prop}

/-- A run goes on to a network in which a tunnel has been built. -/
theorem Reaches.build (h : Reaches S admits net) (hset : net.setting = S) (hS : S.Honest)
    (hfit : ∀ j, (S.node j).registry.keypair.Fit) (hadmits : admits i mode hops)
    (hlinks : LinksHeld net.books) (hne : hops ≠ []) (hwelcome : Welcome S mode hops)
    (hshort : mode = .relayed → hops.length ≤ 256) (used : Fin n → List UInt32)
    (hused : ∀ j x, (net.books j).session x ≠ none → x ∈ used j)
    (hsupply : ∀ j, IdPool.Supplies (S.node j).registry.draw (S.node j).registry.attempts
      ((used j).length + 2 * hops.length))
    (htunnel : ¬ Unnumbered S (fun _ => True) net.books i) :
    ∃ net' id legs hostkey, Reaches S admits net' ∧ net'.setting = S ∧ legs ≠ [] ∧
      legs.map (·.hop.address) = hops.map (·.address) ∧
      Built S (net.books.setSlot i id (some (.ready ⟨id, mode, legs.map (·.hop), hostkey⟩))) i mode
        legs net'.books := by
  obtain ⟨_, net', hrun, hset', id, legs, hostkey, hne', haddress, hbuilt⟩ :=
    act_of_leads 0 hset (leads_call (P := fun b' => ∃ id legs hostkey, legs ≠ [] ∧
      legs.map (·.hop.address) = hops.map (·.address) ∧
      Built S (net.books.setSlot i id (some (.ready ⟨id, mode, legs.map (·.hop), hostkey⟩))) i mode
        legs b')
      ((does_build_welcome hS hfit (le_depth net) hlinks hne hwelcome hshort hused hsupply
        htunnel).mono fun _ _ ⟨id, legs, hostkey, _, _, hne, haddress, hbuilt⟩ =>
          ⟨id, legs, hostkey, hne, haddress, hbuilt⟩))
  have hgenuine : Genuine net.setting mode hops := by
    rw [hset]
    exact fun k hop hk j => hwelcome.own hk
  exact ⟨net', id, legs, hostkey, .call (c := .build mode hops) h
    ⟨hadmits, hgenuine.discerning _⟩ hrun, hset', hne', haddress, hbuilt⟩

/-- A run goes on to a network in which a tunnel has been torn down. -/
theorem Reaches.teardown (h : Reaches S admits net) (hset : net.setting = S) (hS : S.Honest)
    {id : UInt32} {tunnel : Tunnel} {legs : List (Leg n)}
    (hready : (net.books i).slot id = some (.ready tunnel)) (hhops : tunnel.hops = legs.map (·.hop))
    (hstands : Stands S net.books i tunnel.mode legs) :
    ∃ net', Reaches S admits net' ∧ net'.setting = S ∧
      net'.books = (net.books.setSlot i id none).without (legEnds i legs) := by
  obtain ⟨strands, hhung, hflat⟩ := hstands.hung
  obtain ⟨d, hd⟩ : ∃ d, net.depth = d + 1 := ⟨net.depth - 1, by have := le_depth net; omega⟩
  have hdepth : ∀ ends ∈ strands, ends.length < d + 1 := by
    intro ends hends
    have := hhung.length_le ends hends
    have := linkCount_le_depth net
    omega
  obtain ⟨_, net', hrun, hset', hbooks⟩ := act_of_leads 0 hset (hd ▸
    leads_call ((does_teardown hS.own hready rfl hhops hhung hdepth).mono
      fun _ _ hdone => hdone.2))
  refine ⟨net', .call (c := .teardown id) h trivial hrun, hset', ?_⟩
  rw [hbooks, hflat, without_legEnds]

/-- The tunnel that has been built is on the books. -/
theorem Built.ready {b₀ b' : Books n} {legs : List (Leg n)} {id : UInt32} {tunnel : Tunnel}
    (h : Built S (b₀.setSlot i id (some (.ready tunnel))) i mode legs b') :
    (b' i).slot id = some (.ready tunnel) := by
  have hslot := h.leaks.slot i
  simp only [Books.without_apply, Books.setSlot_apply] at hslot
  rw [hslot]
  exact if_pos rfl

end Network

/-! ### A node on its own -/

/-- Where the services of the node answer. -/
def loopAddress (_ : Fin 1) : Service → Address
  | .sessions => .quad 10 0 0 1 7005
  | .clients => .quad 10 0 0 1 7004
  | .peers => .quad 10 0 0 1 7014

/-- A node that counts its identifiers and echoes payloads. -/
def loopNode : Node where
  registry := .empty .ofMersenne (.counting 1 16) ⟨fun i => UInt8.ofNat i, 0⟩
  ownDirectory? := none
  tunnels := .empty (.counting 1 16)
  links := .empty
  nextRequest := 0
  sink := .echo
  rules := ⟨.relayed, .ofMilliseconds 5000, 16⟩
  sessionService := loopAddress 0 .sessions
  sampler? := none
  sampledHops := 0

/-- The network of that node alone. -/
def loopback : Network 1 := .ofNodes ⟨#[loopNode], rfl⟩ loopAddress

/-- The node as a hop of its own tunnels. -/
def loopHop : Hop := ⟨loopAddress 0 .peers, Keypair.ofMersenne.hostkey⟩

namespace Network

theorem apart_loopAddress : Apart loopAddress := by
  intro i s j s' heq
  refine ⟨Subsingleton.elim i j, ?_⟩
  have hport := congrArg Address.port heq
  cases s <;> cases s' <;> first | rfl | cases hport

theorem setting_loopback (j : Fin 1) : loopback.setting.node j = loopNode.setting := by
  show (loopback.node j).setting = _
  rw [loopback, node_ofNodes apart_loopAddress, Subsingleton.elim j 0]
  rfl

theorem books_loopback (j : Fin 1) : loopback.books j = loopNode.row := by
  show (loopback.node j).row = _
  rw [loopback, node_ofNodes apart_loopAddress, Subsingleton.elim j 0]
  rfl

theorem loopback_honest : loopback.setting.Honest :=
  honest_ofNodes apart_loopAddress fun j => by
    rw [Subsingleton.elim j 0]
    rfl

theorem loopback_blank : loopback.Blank where
  session i id := by rw [books_loopback]; rfl
  link i id := by rw [books_loopback]; rfl
  slot i id := by rw [books_loopback]; rfl

theorem loopback_fit (j : Fin 1) : (loopback.setting.node j).registry.keypair.Fit := by
  rw [setting_loopback]
  exact Keypair.ofMersenne_fit

theorem serviceAt?_loopback (s : Service) :
    loopback.setting.serviceAt? (loopAddress 0 s) = some ⟨0, s⟩ :=
  serviceAt?_ofNodes apart_loopAddress _ 0 s

/-- The node gives itself with its own hostkey. -/
theorem loopHop_genuine (h : ∀ hop ∈ hops, hop = loopHop) : Genuine loopback.setting mode hops := by
  refine genuine_of_canonical (fun hop hmem => ?_) fun hop hmem => ?_
  · rw [h hop hmem]
    decide
  · rw [h hop hmem]
    refine .inr ⟨0, serviceAt?_loopback .peers, ?_⟩
    rw [setting_loopback]
    rfl

/-- The node has a few identifiers for sessions. -/
theorem loopback_supplies (j : Fin 1) {m : Nat} (hm : m + 1 < 16) :
    IdPool.Supplies (loopback.setting.node j).registry.draw
      (loopback.setting.node j).registry.attempts m := by
  rw [setting_loopback]
  exact IdPool.supplies_counting 1 hm (by decide)

/-- The node has an identifier for a tunnel. -/
theorem loopback_numbered : ¬ Unnumbered loopback.setting (fun _ => True) loopback.books 0 := by
  rintro ⟨net, hset, hbooks, -, hspent⟩
  apply hspent
  have hnode := congrArg (Setting.node · 0) hset
  rw [setting_loopback] at hnode
  have hdraw : (net.node 0).tunnels.ids.draw = _ := congrArg Node.Setting.tunnelDraw hnode
  have hattempts : (net.node 0).tunnels.ids.attempts = 16 :=
    congrArg Node.Setting.tunnelAttempts hnode
  refine IdPool.Supplies.finds (m := 0) ?_ [] (Nat.le_refl 0) ?_
  · rw [hdraw, hattempts]
    exact IdPool.supplies_counting 1 (by decide) (by decide)
  · intro id hid
    have hnone := loopback_blank.slot 0 id
    rw [← hbooks] at hnone
    rw [Table.contains, show (net.node 0).tunnels.slots.get? id = none from hnone] at hid
    cases hid

/-- The node builds tunnels of a few hops. -/
theorem loopback_build (admits : Fin 1 → TunnelMode → List Hop → Prop) (hadmits : admits 0 mode hops)
    (hne : hops ≠ []) (hwelcome : Welcome loopback.setting mode hops) (hshort : hops.length ≤ 4) :
    ∃ net id legs hostkey, Reaches loopback.setting admits net ∧ net.setting = loopback.setting ∧
      legs ≠ [] ∧ legs.map (·.hop.address) = hops.map (·.address) ∧
      Built loopback.setting
        (loopback.books.setSlot 0 id (some (.ready ⟨id, mode, legs.map (·.hop), hostkey⟩))) 0 mode
        legs net.books := by
  refine (Reaches.blank rfl loopback_blank).build rfl loopback_honest loopback_fit hadmits ?_ hne
    hwelcome (fun _ => by omega) (fun _ => []) ?_ ?_ loopback_numbered
  · intro j x hlink
    exact (hlink (loopback_blank.link j x)).elim
  · intro j x hsome
    exact (hsome (loopback_blank.session j x)).elim
  · exact fun j => loopback_supplies j (show 0 + 2 * hops.length + 1 < 16 by omega)

/-- The node's builds through a few hops succeed. -/
theorem loopback_builds (hne : hops ≠ []) (hwelcome : Welcome loopback.setting mode hops)
    (hshort : hops.length ≤ 4) :
    ∃ net id t, (act 0 (Node.build mode hops).run).run 0 loopback = (some (.ok id), 0, net) ∧
      net.setting = loopback.setting ∧ (net.books 0).slot id = some (.ready t) := by
  have hlinks : LinksHeld loopback.books := fun j x hlink => (hlink (loopback_blank.link j x)).elim
  have hused : ∀ j x, (loopback.books j).session x ≠ none → x ∈ ([] : List UInt32) :=
    fun j x hsome => (hsome (loopback_blank.session j x)).elim
  obtain ⟨_, net, hrun, hset, id, legs, hostkey, rfl, -, -, -, hbuilt⟩ := act_of_leads 0 rfl
    (does_build_welcome loopback_honest loopback_fit (le_depth loopback) hlinks hne hwelcome
      (fun _ => by omega) hused
      (fun j => loopback_supplies j (show 0 + 2 * hops.length + 1 < 16 by omega)) loopback_numbered)
  exact ⟨net, id, _, hrun, hset, hbuilt.ready⟩

end Network

end OnionTunnel
