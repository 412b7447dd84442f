import OnionTunnel.Proofs.Node.Stakes
import OnionTunnel.Proofs.Node.Tasks

/-!
# Addresses end with sessions

A node with a directory of its own goes on errands: it builds tunnels and tears them down, and it
accepts links and destroys them. An address in the directory belongs to a peer with a stake, whatever
the peers do, with one exception: a destroy forgets the session of a link but not the peer. If that
session was the last one with a peer whose address is known, the address is stranded.

Errands are run to their ends one after the other, so the node only changes under its own hands.
-/

namespace OnionTunnel.Node

open SessionRegistry

variable {n n' n₀ : Node} {lost : Identity → Prop} {stakes : List (UInt32 × Identity)} {p : Identity}

/-! ### Errands -/

/-- A node's own directory is warranted by the node's stakes. -/
def Kept (lost : Identity → Prop) (n : Node) : Prop := Keeps n lost n.stakes n

/-- A node that has kept its tunnels and links has kept its stakes. -/
theorem Keeps.kept (h : Keeps n₀ lost stakes n) (hperm : stakes.Perm n₀.stakes) : Kept lost n :=
  h.moved rfl rfl (by rwa [Node.stakes, h.tunnels, h.links])

theorem acts_build_kept (h : Kept lost n) (mode : TunnelMode) (hops : List Hop) :
    Acts n (build mode hops) fun _ _ n' => Kept lost n' := by
  unfold build
  cases hops.getLast? with
  | none => exact Acts.throw h
  | some destination =>
    have hreserved : Kept lost { n with tunnels := n.tunnels.reserve.2 } := by
      refine Keeps.moved h rfl rfl (.of_eq ?_)
      rw [stakes, stakes, TunnelTable.stakes_reserve]
    refine Acts.bind acts_reserveTunnel ?_ ?_
    · rintro _ id _ ⟨rfl, rfl, hres⟩
      have hbuilding : n.tunnels.reserve.2.slots.get? id = some .building := by
        obtain ⟨id', hid, -, -, hslots⟩ | ⟨⟨e, he⟩, -⟩ := n.tunnels.reserve_cases
        · rw [hid] at hres
          obtain rfl : id = id' := Except.ok.inj hres
          rw [hslots, Table.get?_insert_self]
        · rw [he] at hres
          cases hres
      have hnone : Keeps _ lost (([] : List OpenHop).map OpenHop.stake ++ stakes _) _ := hreserved
      refine Acts.attempt (acts_openHops_staked hnone hops) ?_
      rintro t (e | opened) n₂ h₂
      · apply Acts.change
        refine Acts.throw (Keeps.moved h₂ rfl rfl ?_)
        simp only [stakes, Keeps.tunnels h₂, Keeps.links h₂]
        exact (TunnelTable.perm_stakes_abandon _ id).symm.append_right _
      · apply Acts.change
        refine Acts.pure (Keeps.moved h₂ rfl rfl ?_)
        simp only [stakes, Keeps.tunnels h₂, Keeps.links h₂]
        rw [← List.append_assoc]
        exact (TunnelTable.perm_stakes_complete ⟨id, mode, opened, destination.hostkey⟩
          hbuilding).symm.append_right _
    · rintro _ e _ ⟨-, rfl, -⟩
      exact hreserved

theorem acts_teardown_kept (h : Kept lost n) (id : UInt32) :
    Acts n (teardown id) fun _ _ n' => Kept lost n' := by
  refine Acts.bind (P := fun _ res n' => n' = { n with tunnels := n.tunnels.remove id } ∧
    match res with
    | .ok t => n.tunnels.get? id = some t
    | .error _ => n.tunnels.get? id = none) ?_ ?_ ?_
  · refine Acts.after (P := fun _ tunnel? n' => tunnel? = n.tunnels.get? id ∧
      n' = { n with tunnels := n.tunnels.remove id })
      (Comes.modifyGet ⟨n.tunnels.take_fst id, rfl⟩) ?_
    rintro _ tunnel? _ ⟨htunnel, rfl⟩
    cases tunnel? with
    | some t => exact Acts.pure ⟨rfl, htunnel.symm⟩
    | none => exact Acts.throw ⟨rfl, htunnel.symm⟩
  · rintro _ t _ ⟨rfl, ht⟩
    have hremoved := (TunnelTable.perm_stakes_remove ht).append_right n.links.stakes
    rw [List.append_assoc] at hremoved
    refine Comes.bind (comes_release_keeps (Keeps.moved h rfl rfl hremoved)) ?_
    intro t _ n' hreleased
    exact Comes.pure (hreleased.kept (.refl _))
  · rintro _ e _ ⟨rfl, hnone⟩
    have hkept : n.tunnels.remove id = n.tunnels := by
      rw [TunnelTable.remove, TunnelTable.take_of_absent hnone]
    rw [hkept]
    exact h

/-- A link that is accepted is a new stake. -/
theorem acts_acceptHandshake_kept (h : Kept lost n) (hostkey handshake : Bytes) :
    Acts n (acceptHandshake hostkey handshake) fun _ _ n' => Kept lost n' := by
  refine Acts.bind (acts_acceptSession_new hostkey handshake) ?_ ?_
  · rintro t ⟨id, returned⟩ n₁ ⟨hretains, hnew⟩
    obtain ⟨hfree, hheld⟩ := hnew id returned rfl
    have h₁ : Keeps n lost n.stakes n₁ := Keeps.retained_all h hretains
    have hid : ∀ p, (id, p) ∉ n.stakes := Keeps.not_mem h hfree
    have hlink : n₁.links.get? id = none := by
      apply Option.eq_none_iff_forall_not_mem.2
      intro link hlink
      rw [h₁.links] at hlink
      exact hid _ (List.mem_append_right _ (LinkTable.mem_stakes_of_get? hlink))
    apply Acts.change
    apply Acts.change
    have h₂ : Keeps { n₁ with links := n₁.links.accept id (.ofHostkey hostkey) } lost n.stakes
        { n₁ with links := n₁.links.accept id (.ofHostkey hostkey) } := h₁.moved rfl rfl (.refl _)
    refine Acts.pure ((h₂.takeStake hheld (h₂.warranted.bindSession hid _)).kept ?_)
    rw [stakes, stakes, LinkTable.stakes_accept hlink, h₁.tunnels, h₁.links]
    exact List.perm_middle.symm
  · rintro t e n₁ ⟨hretains, -⟩
    exact (Keeps.retained_all h hretains).kept (.refl _)

/-- The destroy of a link strands the peer of the link: the peer's address is known, and no other
session is bound to the peer. -/
structure Strands (n : Node) (id : UInt32) (p : Identity) : Prop where
  link : ∃ link, n.links.get? id = some link ∧ link.peer = p
  known : n.directory.addressOf? p ≠ none
  last : ∀ s, n.directory.identityOf? s = some p → s = id

/-- The stake in a link that is destroyed is given up, which may strand the peer. -/
theorem comes_handleDestroy_kept (h : Kept lost n) (id : UInt32) :
    Comes n (handleDestroy id) fun _ _ n' => Kept (fun p => lost p ∨ Strands n id p) n' := by
  apply Comes.get
  cases hlink : n.links.get? id with
  | none => exact Comes.pure (Keeps.mono h fun _ => .inl)
  | some link =>
    have herased := (LinkTable.perm_stakes_erase hlink).append_left n.tunnels.stakes
    have h₁ : Keeps { n with links := n.links.erase id } lost
        ((id, link.peer) :: stakes { n with links := n.links.erase id })
        { n with links := n.links.erase id } :=
      Keeps.moved h rfl rfl (herased.trans List.perm_middle)
    apply Comes.change
    refine Comes.bind h₁.closeSession ?_
    intro t _ n₂ h₂
    have hkept : Keeps { n with links := n.links.erase id } (fun p => lost p ∨ Strands n id p)
        (stakes { n with links := n.links.erase id }) n₂ := by
      refine h₂.mono fun p => Or.imp_right ?_
      rintro ⟨rfl, hknown, hlast⟩
      exact ⟨⟨link, hlink, rfl⟩, hknown, hlast⟩
    split
    · next next _ =>
      refine (retaining_dropLink next.address next.link n₂).mono ?_
      intro t _ n₃ hretains
      exact (hkept.retained_all hretains).kept (.refl _)
    · exact Comes.pure (hkept.kept (.refl _))

/-! ### Runs -/

/-- What a node does about its tunnels and links. -/
inductive Errand where
  | build (mode : TunnelMode) (hops : List Hop)
  | teardown (tunnel : UInt32)
  | accept (hostkey handshake : Bytes)
  | destroy (link : UInt32)

/-- What a node does on an errand, whatever comes of it. -/
def Errand.program : Errand → Program Node Unit
  | build mode hops => quietly (Node.build mode hops).run
  | teardown tunnel => quietly (Node.teardown tunnel).run
  | accept hostkey handshake => quietly (acceptHandshake hostkey handshake).run
  | destroy link => handleDestroy link

/-- An errand and the node that went on it. -/
structure Entry where
  before : Node
  errand : Errand

/-- An errand strands a peer. -/
def Entry.Strands (e : Entry) (p : Identity) : Prop :=
  ∃ id, e.errand = .destroy id ∧ Node.Strands e.before id p

theorem Entry.strands_destroy {id : UInt32} :
    Entry.Strands ⟨n, .destroy id⟩ p ↔ Node.Strands n id p := by
  constructor
  · rintro ⟨_, ⟨⟩, h⟩
    exact h
  · exact fun h => ⟨id, rfl, h⟩

/-- A node goes on errands one after the other, newest first, and each one comes to its end. -/
inductive Carried (n₀ : Node) : List Entry → Node → Prop
  | start : Carried n₀ [] n₀
  | errand {entries : List Entry} {n n' : Node} {t : List Sent} (h : Carried n₀ entries n)
      (e : Errand) (hrun : Runs e.program n t () n') : Carried n₀ (⟨n, e⟩ :: entries) n'

theorem Comes.quietly {α : Type} {p : Program Node α} {Q : Node → Prop}
    (hp : Comes n p fun _ _ n' => Q n') : Comes n (Node.quietly p) fun _ _ n' => Q n' :=
  Comes.bind hp fun _ _ _ h => Comes.pure h

/-- A peer that is lost after an errand was lost before, or the errand strands it. -/
theorem comes_errand_kept (h : Kept lost n) (e : Errand) :
    Comes n e.program fun _ _ n' => Kept (fun p => lost p ∨ Entry.Strands ⟨n, e⟩ p) n' := by
  have hmono : ∀ {n' : Node}, Kept lost n' →
      Kept (fun p => lost p ∨ Entry.Strands ⟨n, e⟩ p) n' := fun h' => Keeps.mono h' fun _ => .inl
  cases e with
  | build mode hops => exact Comes.quietly ((acts_build_kept h mode hops).mono fun _ _ _ => hmono)
  | teardown id => exact Comes.quietly ((acts_teardown_kept h id).mono fun _ _ _ => hmono)
  | accept hostkey handshake =>
    exact Comes.quietly ((acts_acceptHandshake_kept h hostkey handshake).mono fun _ _ _ => hmono)
  | destroy id =>
    refine (comes_handleDestroy_kept h id).mono fun _ _ _ hkept => Keeps.mono hkept ?_
    exact fun p => Or.imp_right Entry.strands_destroy.2

theorem Carried.kept {entries : List Entry} (h : Carried n₀ entries n)
    (hstart : Kept (fun _ => False) n₀) : Kept (fun p => ∃ e ∈ entries, e.Strands p) n := by
  induction h with
  | start => exact Keeps.mono hstart fun _ => False.elim
  | errand h e hrun ih =>
    refine Keeps.mono (comes_errand_kept ih e _ _ _ hrun) ?_
    rintro p (⟨e', hmem, hstrands⟩ | hstrands)
    · exact ⟨e', List.mem_cons_of_mem _ hmem, hstrands⟩
    · exact ⟨_, List.mem_cons_self, hstrands⟩

/-- A node with an empty directory of its own, no tunnels and no links. -/
structure Unused (n : Node) : Prop where
  own : n.ownDirectory? = some .empty
  slots : n.tunnels.slots = .empty
  links : n.links = .empty

theorem Unused.kept (h : Unused n) : Kept lost n where
  tunnels := rfl
  links := rfl
  own := by rw [h.own]; rfl
  warranted := by
    rw [stakes, TunnelTable.stakes, h.slots, h.links, directory, h.own]
    exact .empty
  held s p hs := by
    rw [stakes, TunnelTable.stakes, h.slots, h.links] at hs
    cases hs

/-- Whatever a node builds, tears down, accepts and destroys, with whatever peers, an address in its
own directory belongs to a peer with a bound session, or to one that a destroy has stranded. If none
has, no addresses are left once all tunnels are torn down and all links destroyed. -/
theorem address_bound_or_stranded {entries : List Entry} (hunused : Unused n₀)
    (h : Carried n₀ entries n) :
    (∀ p, n.directory.addressOf? p ≠ none →
      (∃ s, n.directory.identityOf? s = some p) ∨ ∃ e ∈ entries, e.Strands p) ∧
    ((∀ e ∈ entries, ∀ p, ¬ e.Strands p) → n.tunnels.size = 0 → n.links.size = 0 →
      n.directory.peerCount = 0) := by
  have hkept := h.kept hunused.kept
  constructor
  · intro p hp
    refine (hkept.warranted.known p hp).symm.imp_left ?_
    rintro ⟨s, hs⟩
    exact ⟨s, hkept.warranted.identityOf?_iff.2 hs⟩
  · intro hnone htunnels hlinks
    have hstakes : n.stakes = [] := by
      rw [stakes, TunnelTable.stakes_eq_nil htunnels, LinkTable.stakes,
        List.length_eq_zero_iff.1 hlinks]
      rfl
    have hwarranted := hkept.warranted
    rw [hstakes] at hwarranted
    apply hwarranted.peerCount_eq_zero
    rintro p ⟨e, hmem, hstrands⟩
    exact hnone e hmem p hstrands

/-! ### A hop that is a peer -/

/-- The node after an errand on which the far hop answers and nobody else. -/
def Errand.after (e : Errand) (n : Node) : Node := (replay 0 farAnswers e.program n).2.2

theorem Carried.replayed {entries : List Entry} (h : Carried n₀ entries n) (e : Errand) :
    Carried n₀ (⟨n, e⟩ :: entries) (e.after n) :=
  .errand h e (runs_replay 0 farAnswers e.program n)

/-- A node with a peer directory of its own. -/
def ownNode : Node := { loopNode with ownDirectory? := some .empty }

/-- The handshake with which the far hop opens a session in its turn. -/
def farHandshake : Bytes :=
  match (loopNode.registry.handle 0 (.sessionStart loopNode.hostkey)).1 with
  | some (.sessionHandshake1 _ handshake) => handshake
  | _ => []

/-- The node has a tunnel to the far hop. -/
def builtNode : Node := (Errand.build .direct [farHop]).after ownNode

/-- It has a link of the far hop, too. -/
def mutualNode : Node := (Errand.accept farHop.hostkey farHandshake).after builtNode

theorem carried_mutualNode : Carried ownNode
    [⟨builtNode, .accept farHop.hostkey farHandshake⟩, ⟨ownNode, .build .direct [farHop]⟩]
    mutualNode :=
  (Carried.start.replayed _).replayed _

theorem unused_ownNode : Unused ownNode := ⟨rfl, rfl, rfl⟩

/-- While the tunnel is there, the destroy of the link strands nobody. -/
theorem not_strands_mutualNode (p : Identity) : ¬ Strands mutualNode 2 p := by
  have hlink : mutualNode.links.get? 2 = some ⟨farHop.identity, none⟩ := by decide +kernel
  have hbound : mutualNode.directory.identityOf? 1 = some farHop.identity := by decide +kernel
  rintro ⟨⟨link, hget, rfl⟩, -, hlast⟩
  rw [hlink] at hget
  obtain rfl := Option.some.inj hget
  exact absurd (hlast 1 hbound) (by decide)

/-- If the link is destroyed before the tunnel is torn down, nobody is stranded and no address is
left. -/
theorem address_bound_or_stranded_linkFirst : Unused ownNode ∧ ∃ entries n,
    Carried ownNode entries n ∧ (∀ e ∈ entries, ∀ p, ¬ e.Strands p) ∧ n.directory.peerCount = 0 := by
  have hrun := (carried_mutualNode.replayed (.destroy 2)).replayed (.teardown 1)
  have hend := (address_bound_or_stranded unused_ownNode hrun).2
  refine ⟨unused_ownNode, _, _, hrun, ?_⟩
  refine (fun hnone => ⟨hnone, hend hnone (by decide +kernel) (by decide +kernel)⟩) ?_
  intro e hmem p hstrands
  simp only [List.mem_cons, List.not_mem_nil, or_false] at hmem
  obtain rfl | rfl | rfl | rfl := hmem
  · obtain ⟨id, ⟨⟩, -⟩ := hstrands
  · exact not_strands_mutualNode p (Entry.strands_destroy.1 hstrands)
  · obtain ⟨id, ⟨⟩, -⟩ := hstrands
  · obtain ⟨id, ⟨⟩, -⟩ := hstrands

/-- If the tunnel is torn down first, the far hop is not forgotten, as its link is there; and it is not
forgotten with the link. Its address is left without a session. -/
theorem not_address_bound : ∃ entries n, Unused ownNode ∧ Carried ownNode entries n ∧
    n.tunnels.size = 0 ∧ n.links.size = 0 ∧ n.directory.peerCount = 1 ∧
    n.directory.addressOf? farHop.identity = some farHop.address ∧ n.directory.sessionCount = 0 := by
  refine ⟨_, _, unused_ownNode,
    (carried_mutualNode.replayed (.teardown 1)).replayed (.destroy 2), ?_⟩
  decide +kernel

end OnionTunnel.Node
