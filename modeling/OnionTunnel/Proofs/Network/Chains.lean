import OnionTunnel.Proofs.Network.Growth
import OnionTunnel.Proofs.Network.Loopback

/-!
# Builds that succeed in a network

In whatever state the nodes of a network are, an owner that builds through settled hops ends with a
chained tunnel under an identifier that was free; or the tunnel was to be relayed through more hops
than one cell has layers, and the build fails at the first hop too many.
-/

namespace OnionTunnel.Network

variable {n : Nat} {net : Network n} {mode : TunnelMode} {hops : List Hop}

/-- Builds through settled hops end with a chained tunnel, unless they are relayed through too many
of them. -/
theorem build_settled (i : Fin n) (mode : TunnelMode) (now : Instant) (hS : net.setting.Honest)
    (hinverts : ∀ j, (net.setting.node j).registry.keypair.Inverts)
    (hsize : ∀ j, 27 ≤ (net.setting.node j).registry.keypair.key.size ∧
      (net.setting.node j).registry.keypair.key.size ≤ 512)
    (hne : hops ≠ []) (hsettled : ∀ hop ∈ hops, Settled net.setting hop)
    (hids : (act i (Node.build mode hops).run).Sees Plentiful now net) :
    ∃ res net', (act i (Node.build mode hops).run).run now net = (some res, now, net') ∧
      net'.setting = net.setting ∧
      ((mode = .relayed → hops.length ≤ 256) → ∃ id t, res = .ok id ∧ id ≠ 0 ∧
        (net.books i).slot id = none ∧ (net'.books i).slot id = some (.ready t) ∧ t.id = id ∧
        Chained net.setting net'.books i mode hops t) ∧
      (mode = .relayed → 256 < hops.length →
        ∃ cause, res = .error (.buildFailed 256 cause)) := by
  have hfit : ∀ j, (net.setting.node j).registry.keypair.Fit := fun j =>
    Keypair.fit_of_size (hinverts j) (hsize j).1 (hsize j).2
  obtain ⟨res, net', hrun, hset, hbuilt⟩ := act_of_leads_of_sees rfl hids
    (does_build_settled hS hfit (le_depth net) hne hsettled)
  refine ⟨res, net', hrun, hset, ?_, ?_⟩
  · intro hshort
    obtain ⟨id, t, hres, hid, hfree, hready, ht, hchained, -⟩ | ⟨hmode, hlong, -⟩ := hbuilt
    · exact ⟨id, t, hres, hid, hfree, hready, ht, hchained⟩
    · exact absurd hlong (Nat.not_lt.2 (hshort hmode))
  · intro hmode hlong
    obtain ⟨_, _, _, _, _, _, _, _, hshort⟩ | ⟨-, -, hfailed⟩ := hbuilt
    · exact absurd hlong (Nat.not_lt.2 (hshort hmode))
    · exact hfailed

theorem loopHop_settled : Settled loopback.setting loopHop where
  canonical := by decide
  home := by
    refine ⟨0, serviceAt?_loopback .peers, ?_⟩
    rw [setting_loopback]
    rfl

/-- The node on its own can have a few more sessions and tunnels. -/
theorem loopback_stocked : loopback.Stocked 6 := by
  intro j
  refine ⟨[], [], ?_, ?_, loopback_supplies j (by decide), ?_⟩
  · exact fun id hsome => (hsome (loopback_blank.session j id)).elim
  · exact fun id hsome => (hsome (loopback_blank.slot j id)).elim
  · have hset := setting_loopback j
    have hdraw : (loopback.node j).tunnels.ids.draw = _ := congrArg Node.Setting.tunnelDraw hset
    have hattempts : (loopback.node j).tunnels.ids.attempts = _ :=
      congrArg Node.Setting.tunnelAttempts hset
    rw [hdraw, hattempts]
    exact IdPool.supplies_counting 1 (by decide) (by decide)

/-- The node on its own builds a direct and a relayed tunnel in which it is both hops. -/
theorem build_settled_loopback :
    (∃ id t net', (act 0 (Node.build .direct [loopHop, loopHop]).run).run 0 loopback =
        (some (.ok id), 0, net') ∧ id ≠ 0 ∧ (net'.books 0).slot id = some (.ready t) ∧
        Chained loopback.setting net'.books 0 .direct [loopHop, loopHop] t) ∧
    ∃ id t net', (act 0 (Node.build .relayed [loopHop, loopHop]).run).run 0 loopback =
        (some (.ok id), 0, net') ∧ id ≠ 0 ∧ (net'.books 0).slot id = some (.ready t) ∧
        Chained loopback.setting net'.books 0 .relayed [loopHop, loopHop] t := by
  have hsize : ∀ j, 27 ≤ (loopback.setting.node j).registry.keypair.key.size ∧
      (loopback.setting.node j).registry.keypair.key.size ≤ 512 := by
    intro j
    rw [setting_loopback]
    decide +kernel
  have hsettled : ∀ hop ∈ [loopHop, loopHop], Settled loopback.setting hop := by
    intro hop hmem
    have hloop : hop = loopHop := by simpa using hmem
    exact hloop ▸ loopHop_settled
  have hbuilds : ∀ mode, ∃ id t net',
      (act 0 (Node.build mode [loopHop, loopHop]).run).run 0 loopback = (some (.ok id), 0, net') ∧
        id ≠ 0 ∧ (net'.books 0).slot id = some (.ready t) ∧
        Chained loopback.setting net'.books 0 mode [loopHop, loopHop] t := by
    intro mode
    have hstocked : loopback.Stocked (2 * [loopHop, loopHop].length + 2) := loopback_stocked
    obtain ⟨_, net', hrun, -, hbuilt, -⟩ := build_settled 0 mode 0 loopback_honest
      (fun j => (loopback_fit j).inverts) hsize (List.cons_ne_nil _ _) hsettled
      (build_sees_plentiful hstocked 0 0)
    obtain ⟨id, t, rfl, hne, -, hready, -, hchained⟩ := hbuilt fun _ => by decide
    exact ⟨id, t, net', hrun, hne, hready, hchained⟩
  exact ⟨hbuilds .direct, hbuilds .relayed⟩

end OnionTunnel.Network
