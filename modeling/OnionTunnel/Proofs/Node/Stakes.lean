import OnionTunnel.Proofs.Node.Retaining
import OnionTunnel.Proofs.Node.Rollback
import OnionTunnel.Proofs.PeerDirectory

/-!
# What a node has a stake in

A node has a stake in the peer of each open hop and of each link. Its own directory binds the sessions
of these stakes and no others: a hop that is opened and a link that is accepted are bound, and a hop
that is released is forgotten with its session.

## Implementation notes

The stakes are a list that is compared with the entries of the directory up to order. As a table has
one entry a session, no two stakes are in one session; that needs no invariant of its own. The hops of
a tunnel that is being built are stakes too, which no tunnel of the node has yet, so `Keeps` takes the
stakes as they are and not from the node.
-/

namespace OnionTunnel

/-- The open hops of a tunnel; one that is being built has none yet. -/
def Slot.hops : Slot → List OpenHop
  | .building => []
  | .ready t => t.hops

/-- The session with a hop and who the hop is. -/
def OpenHop.stake (h : OpenHop) : UInt32 × Identity := (h.session, h.identity)

/-- The sessions with the hops of ready tunnels. -/
def TunnelTable.stakes (t : TunnelTable) : List (UInt32 × Identity) :=
  t.slots.entries.flatMap fun e => e.2.hops.map OpenHop.stake

/-- The sessions that links stand for. -/
def LinkTable.stakes (t : LinkTable) : List (UInt32 × Identity) :=
  t.entries.map fun e => (e.1, e.2.peer)

namespace TunnelTable

variable {t : TunnelTable} {id : UInt32}

/-- A slot is taken out. -/
theorem perm_stakes_erase {s : Slot} (h : t.slots.get? id = some s) :
    t.stakes.Perm (s.hops.map OpenHop.stake ++ stakes { t with slots := t.slots.erase id }) :=
  (Table.perm_cons_erase h).flatMap_right _

theorem stakes_reserve (t : TunnelTable) : t.reserve.2.stakes = t.stakes := by
  obtain ⟨id, -, -, hfree, hslots⟩ | ⟨-, -, hslots⟩ := t.reserve_cases
  · simp only [stakes, hslots, Table.entries_insert_of_absent hfree]
    rfl
  · simp only [stakes, hslots]

theorem perm_stakes_complete (tunnel : Tunnel) (h : t.slots.get? tunnel.id = some .building) :
    (t.complete tunnel).stakes.Perm (tunnel.hops.map OpenHop.stake ++ t.stakes) :=
  (perm_stakes_erase h).symm.append_left _

theorem perm_stakes_abandon (t : TunnelTable) (id : UInt32) : (t.abandon id).stakes.Perm t.stakes := by
  unfold abandon
  split
  · next h => exact (perm_stakes_erase h).symm
  · rfl

theorem perm_stakes_remove {tunnel : Tunnel} (h : t.get? id = some tunnel) :
    t.stakes.Perm (tunnel.hops.map OpenHop.stake ++ (t.remove id).stakes) := by
  unfold get? at h
  split at h
  · next ready hslot =>
    obtain rfl := Option.some.inj h
    rw [remove, take_of_ready hslot]
    exact perm_stakes_erase hslot
  · cases h

/-- A table without ready tunnels has no stakes. -/
theorem stakes_eq_nil (h : t.size = 0) : t.stakes = [] := by
  apply List.flatMap_eq_nil_iff.2
  rintro ⟨id, s⟩ hmem
  have hfiltered := List.length_eq_zero_iff.1 h
  have hbuilding := List.filter_eq_nil_iff.1 hfiltered s (List.mem_map.2 ⟨(id, s), hmem, rfl⟩)
  obtain rfl : s = .building := by simpa using hbuilding
  rfl

end TunnelTable

namespace LinkTable

variable {t : LinkTable} {id : UInt32}

theorem mem_stakes_of_get? {link : Link} (h : t.get? id = some link) : (id, link.peer) ∈ t.stakes :=
  List.mem_map.2 ⟨(id, link), (Table.mem_entries_iff t id link).2 h, rfl⟩

theorem stakes_accept (h : t.get? id = none) (peer : Identity) :
    (t.accept id peer).stakes = (id, peer) :: t.stakes := by
  simp only [stakes, accept, Table.entries_insert_of_absent h]
  rfl

theorem perm_stakes_erase {link : Link} (h : t.get? id = some link) :
    t.stakes.Perm ((id, link.peer) :: stakes (t.erase id)) :=
  (Table.perm_cons_erase h).map _

end LinkTable

namespace Node

open SessionRegistry

/-- Who a node has sessions with, and under which numbers. -/
def stakes (n : Node) : List (UInt32 × Identity) := n.tunnels.stakes ++ n.links.stakes

variable {n n' n₀ : Node} {lost lost' : Identity → Prop} {stakes stakes' : List (UInt32 × Identity)}
  {s : UInt32} {p : Identity} {mode : TunnelMode} {closed : List UInt32}

/-- A node has got so far from another without a change of its tunnels and its links. It has a
directory of its own, which is warranted by some stakes, and holds their sessions. -/
structure Keeps (n₀ : Node) (lost : Identity → Prop) (stakes : List (UInt32 × Identity)) (n : Node) :
    Prop where
  tunnels : n.tunnels = n₀.tunnels
  links : n.links = n₀.links
  own : n.ownDirectory?.isSome = true
  warranted : n.directory.Warranted lost stakes
  held : ∀ s p, (s, p) ∈ stakes → n.registry.holdings s ≠ none

namespace Keeps

theorem retained (h : Keeps n₀ lost stakes n) (hretains : Retains closed n n')
    (hclosed : ∀ s p, (s, p) ∈ stakes → s ∉ closed) : Keeps n₀ lost stakes n' where
  tunnels := hretains.tunnels.trans h.tunnels
  links := hretains.links.trans h.links
  own := by rw [hretains.own, h.own]
  warranted := by
    rw [hretains.directory_eq h.own]
    exact h.warranted
  held s p hs := hretains.held s (hclosed s p hs) (h.held s p hs)

theorem mono (h : Keeps n₀ lost stakes n) (hlost : ∀ p, lost p → lost' p) :
    Keeps n₀ lost' stakes n :=
  { h with warranted := h.warranted.mono hlost }

theorem retained_all (h : Keeps n₀ lost stakes n) (hretains : Retains [] n n') :
    Keeps n₀ lost stakes n' :=
  h.retained hretains fun _ _ _ => List.not_mem_nil

theorem perm (h : Keeps n₀ lost stakes n) (hperm : stakes.Perm stakes') :
    Keeps n₀ lost stakes' n where
  tunnels := h.tunnels
  links := h.links
  own := h.own
  warranted := h.warranted.perm hperm
  held s p hs := h.held s p (hperm.mem_iff.2 hs)

/-- A number that has no session has no stake. -/
theorem not_mem (h : Keeps n₀ lost stakes n) (hfree : n.registry.holdings s = none) (p : Identity) :
    (s, p) ∉ stakes :=
  fun hmem => h.held s p hmem hfree

/-- The directory changes, and what warrants it. -/
theorem updateDirectory {f : PeerDirectory → PeerDirectory} (h : Keeps n₀ lost stakes n)
    (hwarranted : (f n.directory).Warranted lost' stakes')
    (hheld : ∀ s p, (s, p) ∈ stakes' → n.registry.holdings s ≠ none) :
    Keeps n₀ lost' stakes' (n.updateDirectory f) := by
  obtain ⟨d, hd⟩ := Option.isSome_iff_exists.1 h.own
  have heq : n.updateDirectory f = { n with ownDirectory? := some (f d) } := by
    unfold Node.updateDirectory
    rw [hd]
  have hdirectory : n.directory = d := by
    unfold directory
    rw [hd]
    rfl
  rw [heq]
  exact ⟨h.tunnels, h.links, rfl, hdirectory ▸ hwarranted, hheld⟩

/-- A stake is taken in a session that the node holds. -/
theorem takeStake {f : PeerDirectory → PeerDirectory} (h : Keeps n₀ lost stakes n)
    (hs : n.registry.holdings s ≠ none)
    (hwarranted : (f n.directory).Warranted lost ((s, p) :: stakes)) :
    Keeps n₀ lost ((s, p) :: stakes) (n.updateDirectory f) := by
  apply h.updateDirectory hwarranted
  intro s' p' hmem
  obtain heq | hmem := List.mem_cons.1 hmem
  · obtain ⟨rfl, -⟩ := Prod.mk.inj heq
    exact hs
  · exact h.held s' p' hmem

/-- A session without a stake is closed. -/
theorem closeSession_absent (h : Keeps n₀ lost stakes n) (hs : ∀ p, (s, p) ∉ stakes) :
    Comes n (closeSession s) fun _ _ n' => Keeps n₀ lost stakes n' := by
  refine (comes_closeSession_others s).mono ?_
  intro t _ n' hretains
  refine (h.updateDirectory (h.warranted.forgetSession_absent hs) h.held).retained hretains ?_
  intro s' p hmem hs'
  obtain rfl := List.mem_singleton.1 hs'
  exact hs p hmem

/-- A session with a stake is closed, and the stake is given up. -/
theorem closeSession (h : Keeps n₀ lost ((s, p) :: stakes) n) :
    Comes n (closeSession s) fun _ _ n' => Keeps n₀ (fun q => lost q ∨ q = p ∧
      n.directory.addressOf? p ≠ none ∧ ∀ s', n.directory.identityOf? s' = some p → s' = s)
      stakes n' := by
  refine (comes_closeSession_others s).mono ?_
  intro t _ n' hretains
  refine (h.updateDirectory h.warranted.forgetSession fun s' q hmem =>
    h.held s' q (List.mem_cons_of_mem _ hmem)).retained hretains ?_
  intro s' q hmem hs'
  obtain rfl := List.mem_singleton.1 hs'
  exact h.warranted.not_mem q hmem

/-- The node takes up other tunnels or links. -/
theorem moved (h : Keeps n₀ lost stakes n) (hown : n'.ownDirectory? = n.ownDirectory?)
    (hregistry : n'.registry = n.registry) (hperm : stakes.Perm stakes') :
    Keeps n' lost stakes' n' where
  tunnels := rfl
  links := rfl
  own := by rw [hown, h.own]
  warranted := by
    unfold directory
    rw [hown, hregistry]
    exact h.warranted.perm hperm
  held s p hs := by
    rw [hregistry]
    exact h.held s p (hperm.mem_iff.2 hs)

end Keeps

/-! ### Hops -/

/-- What an attempt comes to: there are new stakes, or it has failed and the stakes are as before. -/
def Staked {α : Type} (n₀ : Node) (lost : Identity → Prop) (stakes : List (UInt32 × Identity))
    (new : α → List (UInt32 × Identity)) : Except TunnelError α → Node → Prop
  | .ok a, n => Keeps n₀ lost (new a ++ stakes) n
  | .error _, n => Keeps n₀ lost stakes n

/-- A hop that is opened is a new stake; nothing is left of one that cannot be opened. -/
theorem acts_openHop_staked (h : Keeps n₀ lost stakes n) (hop : Hop) (route : List OpenHop) :
    Acts n (openHop hop route) fun _ res n' =>
      Staked n₀ lost stakes (fun o => [o.stake]) res n' := by
  refine Acts.bind (acts_startSession_new hop.hostkey) ?_ ?_
  · rintro t ⟨session, handshake⟩ n₁ ⟨hretains₁, hnew⟩
    obtain ⟨hfree, hheld₁⟩ := hnew session handshake rfl
    have hs : ∀ p, (session, p) ∉ stakes := h.not_mem hfree
    have hclose : ∀ {n₂ : Node} (e : TunnelError), Keeps n₀ lost stakes n₂ →
        Acts n₂ (do closeSession session; throw e : Action OpenHop) fun _ res n' =>
          Staked n₀ lost stakes (fun o => [o.stake]) res n' := by
      intro n₂ e h₂
      refine Acts.after (h₂.closeSession_absent hs) ?_
      intro t _ n₃ h₃
      exact Acts.throw h₃
    have h₁ := h.retained_all hretains₁
    refine Acts.attempt (retaining_reachHop hop route handshake n₁) ?_
    intro t res n₂ hretains₂
    have h₂ := h₁.retained_all hretains₂
    obtain e | ⟨link, returned⟩ := res
    · exact hclose e h₂
    refine Acts.attempt (retaining_confirmSession session returned n₂) ?_
    intro t res n₃ hretains₃
    have h₃ := h₂.retained_all hretains₃
    obtain e | _ := res
    · show Acts n₃ (ite _ _ _ : Action OpenHop) _
      split
      · refine Acts.after (retaining_dropLink hop.address link n₃) ?_
        intro t _ n₄ hretains₄
        exact hclose e (h₃.retained_all hretains₄)
      · exact hclose e h₃
    · have hheld₃ := hretains₃.held session List.not_mem_nil
        (hretains₂.held session List.not_mem_nil hheld₁)
      apply Acts.change
      apply Acts.pure
      apply h₃.takeStake hheld₃
      exact (h₃.warranted.bindSession hs hop.identity).rememberPeer List.mem_cons_self _
  · rintro t e n₁ ⟨hretains, -⟩
    exact h.retained_all hretains

/-- The stakes in the released hops are given up, and nobody is lost. -/
theorem comes_release_keeps {hops : List OpenHop}
    (h : Keeps n₀ lost (hops.map OpenHop.stake ++ stakes) n) :
    Comes n (release mode hops) fun _ _ n' => Keeps n₀ lost stakes n' := by
  refine Comes.bind (Retaining.forM (fun o => retaining_dropLink _ _) (notified mode hops) n) ?_
  intro t _ n₁ hretains
  replace h := h.retained_all hretains
  clear hretains
  induction hops generalizing n₁ with
  | nil => exact Comes.pure h
  | cons o rest ih =>
      refine Comes.bind (P := fun _ _ n' => Keeps n₀ lost (rest.map OpenHop.stake ++ stakes) n') ?_ ?_
      · refine Comes.bind h.closeSession ?_
        intro t _ n₂ h₂
        apply Comes.modifyGet
        exact h₂.updateDirectory (h₂.warranted.mono fun _ => Or.imp_right And.left).forgetPeer h₂.held
      · intro t _ n₂ h₂
        exact ih n₂ h₂

/-- All hops are opened and are stakes, or nothing is left of any. -/
theorem acts_openHops_staked {built : List OpenHop}
    (h : Keeps n₀ lost (built.map OpenHop.stake ++ stakes) n) (hops : List Hop) :
    Acts n (openHops mode built hops) fun _ res n' =>
      Staked n₀ lost stakes (List.map OpenHop.stake) res n' := by
  induction hops generalizing built n with
  | nil => exact Acts.pure h
  | cons hop rest ih =>
      refine Acts.attempt (acts_openHop_staked h hop (routeBy mode built)) ?_
      rintro t (cause | o) n₁ h₁
      · refine Acts.after (comes_release_keeps h₁) ?_
        intro t _ n₂ h₂
        exact Acts.throw h₂
      · refine ih (Keeps.perm h₁ ?_)
        rw [List.map_append, List.append_assoc]
        exact List.perm_append_comm_assoc _ _ _

end Node

end OnionTunnel
