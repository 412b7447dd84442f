import OnionTunnel.Proofs.Network.Services
import OnionTunnel.Proofs.Node.Chains
import OnionTunnel.Proofs.Node.Taking

/-!
# Networks that grow

Until anything pauses, no node has gained more sessions or tunnels than the program takes that
started it all, whoever answers whom on the way and however deep that goes. So where the pools
supply that many identifiers beyond those in use, whatever is seen on the way is plentiful.
-/

namespace OnionTunnel

namespace Timed

variable {S α β : Type} {V W : S → Prop} {now : Instant} {p : Timed S α} {s : S}

/-- Until it first pauses, a process looks only at states of which a statement is true, and the
statement is true of its end if it ends by then. -/
def KeepsTo (V : S → Prop) (now : Instant) : Timed S α → S → Prop
  | done _, s => V s
  | read k, s => V s ∧ KeepsTo V now (k now s) s
  | write s p, _ => KeepsTo V now p s
  | pause _ _, _ => True
  | stuck, _ => True

namespace KeepsTo

theorem sees (h : p.KeepsTo V now s) : p.Sees V now s := by
  induction p generalizing s with
  | done a => trivial
  | read k ih => exact ⟨h.1, ih now s h.2⟩
  | write s₁ p ih => exact ih h
  | pause t p _ => trivial
  | stuck => trivial

/-- What goes on with the result may see more. -/
theorem bind {f : α → Timed S β} (hp : p.KeepsTo V now s) (hVW : ∀ s, V s → W s)
    (hf : ∀ a s', V s' → (f a).KeepsTo W now s') : (p.bind f).KeepsTo W now s := by
  induction p generalizing s with
  | done a => exact hf a s hp
  | read k ih => exact ⟨hVW s hp.1, ih now s hp.2⟩
  | write s₁ p ih => exact ih hp
  | pause t p _ => trivial
  | stuck => trivial

theorem within (hp : p.KeepsTo V now s) (limit : Nat) : (p.within limit).KeepsTo V now s := by
  induction p generalizing s with
  | done a => exact hp
  | read k ih => exact ⟨hp.1, ih now s hp.2⟩
  | write s₁ p ih => exact ih hp
  | pause t p _ =>
    rw [Timed.within]
    split <;> trivial
  | stuck => trivial

end KeepsTo

end Timed

namespace Network

open Node

variable {n : Nat} {α : Type} {j k : Nat} {now : Instant} {i : Fin n} {net₀ net : Network n}

/-- Every node has gained at most so many sessions, and at most so many tunnels. -/
def Gains (k : Nat) (net₀ net : Network n) : Prop :=
  ∀ i, (net₀.node i).Gains k (net.node i)

theorem Gains.refl (k : Nat) (net : Network n) : Gains k net net := fun _ => .refl k _

theorem Gains.mono (h : Gains j net₀ net) (hk : j ≤ k) : Gains k net₀ net :=
  fun i => (h i).mono hk

theorem Gains.setNode (h : Gains k net₀ net) {node : Node} (hnode : (net.node i).Gains j node) :
    Gains (k + j) net₀ (net.setNode i node) := by
  intro i'
  rw [node_setNode]
  split
  · next hi =>
    subst hi
    exact (h i').trans hnode
  · exact (h i').mono (Nat.le_add_right k j)

/-- What is sent has nodes gain no more than its messages take, until something pauses. -/
def Sparing (sender : Sender n) (now : Instant) (net₀ : Network n) : Prop :=
  ∀ dest m j k net, m.takes? = some j → Gains k net₀ net →
    (sender dest m).KeepsTo (Gains (k + j) net₀) now net

variable {sender : Sender n}

/-- What is sent under a limit. -/
theorem Sparing.limited (h : Sparing sender now net₀) {dest : Address} {m : Message}
    (hm : m.takes? = some j) (hnet : Gains k net₀ net) (limit : Option Duration) :
    (limited limit (sender dest m)).KeepsTo (Gains (k + j) net₀) now net := by
  have hsent := h dest m j k net hm hnet
  cases limit with
  | none => exact hsent
  | some d => exact (hsent.within _).bind (fun _ h => h) fun _ _ h => h

/-- A node's program has nodes gain no more than it takes. -/
theorem Sparing.perform (h : Sparing sender now net₀) {p : Program Node α} {node : Node}
    (hp : Takes j node p) (hnode : net.node i = node) (hnet : Gains k net₀ net) :
    (perform sender i p).KeepsTo (Gains (k + j) net₀) now net := by
  induction hp generalizing k net with
  | done c => exact hnet.mono (Nat.le_add_right k _)
  | read _ ih =>
    subst hnode
    exact ⟨hnet.mono (Nat.le_add_right k _), ih now rfl hnet⟩
  | write hs _ ih =>
    subst hnode
    rw [← Nat.add_assoc]
    refine ⟨hnet.mono (by omega), ih ?_ (hnet.setNode hs)⟩
    rw [node_setNode, if_pos rfl]
  | send hm _ ih =>
    rw [← Nat.add_assoc]
    refine (h.limited hm hnet _).bind (fun _ h => h.mono (Nat.le_add_right _ _)) ?_
    exact fun o net' hnet' => ih o _ rfl hnet'

theorem Sparing.answerService (h : Sparing sender now net₀) (s : ServiceOf n) {m : Message}
    (hm : m.takes? = some j) (hnet : Gains k net₀ net) :
    (answerService sender s m).KeepsTo (Gains (k + j) net₀) now net :=
  h.perform (takes_answer s.service hm) rfl hnet

/-- Scripts are no business of the nodes. -/
theorem keepsTo_dequeueAt (hnet : Gains k net₀ net) (dest : Address) :
    (dequeueAt dest).KeepsTo (Gains k net₀) now net := by
  refine ⟨hnet, ?_⟩
  dsimp only [Timed.bind]
  split
  · exact ⟨hnet, hnet⟩
  · exact hnet

theorem Sparing.answerResponder (h : Sparing sender now net₀) (dest : Address)
    (r : Responder (ServiceOf n)) {m : Message} (hm : m.takes? = some j) (hnet : Gains k net₀ net) :
    (answerResponder sender dest r m).KeepsTo (Gains (k + j) net₀) now net := by
  have hmore : Gains (k + j) net₀ (net.note dest m) := hnet.mono (Nat.le_add_right k j)
  have hnoted : Gains k net₀ (net.note dest m) := hnet
  refine ⟨hmore, ?_⟩
  dsimp only
  split
  · trivial
  · cases r.decide m with
    | reply reply => exact hmore
    | pass s => exact h.answerService s hm hnoted
    | next => exact keepsTo_dequeueAt hmore dest

/-- An exchange has nodes gain no more than its message takes, however deep it is followed. -/
theorem sparing_exchange (depth : Nat) (now : Instant) (net₀ : Network n) :
    Sparing (exchange depth) now net₀ := by
  induction depth with
  | zero => exact fun _ _ _ _ _ _ _ => trivial
  | succ depth ih =>
    intro dest m j k net hm hnet
    have hmore : Gains (k + j) net₀ net := hnet.mono (Nat.le_add_right k j)
    rw [exchange_succ]
    refine ⟨hmore, ?_⟩
    cases hdest : net.endpoints.get? dest with
    | none =>
      simp only [hdest]
      exact hmore
    | some e =>
      obtain ⟨fault, hfault⟩ | hok := m.transmit_cases
      · simp only [hdest, hfault]
        exact hmore
      · simp only [hdest, hok]
        rw [← m.takes?_canonical] at hm
        refine Timed.KeepsTo.bind (V := Gains (k + j) net₀) ?_ (fun _ h => h) fun _ _ h => h
        cases e with
        | service s => exact ih.answerService s hm hnet
        | responder r => exact ih.answerResponder dest r hm hnet

/-- What a node does has nodes gain no more than it takes. -/
theorem act_keepsTo {p : Program Node α} (hp : ∀ n, Takes k n p) (i : Fin n) (now : Instant)
    (net : Network n) : (act i p).KeepsTo (Gains k net) now net := by
  have hperform := (sparing_exchange net.depth now net).perform (hp (net.node i)) rfl (.refl 0 net)
  rw [Nat.zero_add] at hperform
  exact ⟨.refl k net, hperform⟩

/-! ### Plentiful networks -/

/-- The pools of every node supply so many identifiers beyond those in use. -/
def Stocked (k : Nat) (net : Network n) : Prop :=
  ∀ i, ∃ sessions tunnels : List UInt32,
    (∀ id, (net.node i).registry.holdings id ≠ none → id ∈ sessions) ∧
    (∀ id, (net.node i).tunnels.slots.get? id ≠ none → id ∈ tunnels) ∧
    IdPool.Supplies (net.node i).registry.ids.draw (net.node i).registry.ids.attempts
      (sessions.length + k) ∧
    IdPool.Supplies (net.node i).tunnels.ids.draw (net.node i).tunnels.ids.attempts
      (tunnels.length + k)

/-- A network that has grown by no more than the pools supply is plentiful. -/
theorem Gains.plentiful (h : Gains k net₀ net) (hstocked : net₀.Stocked k) : net.Plentiful := by
  intro i
  obtain ⟨sessions, tunnels, hsessions, htunnels, hsupply, hsupply'⟩ := hstocked i
  obtain ⟨hset, hgained, hgained'⟩ := h i
  have hregistry := congrArg Node.Setting.registry hset
  have hdraw : (net.node i).registry.ids.draw = _ := congrArg SessionRegistry.Setting.draw hregistry
  have hattempts : (net.node i).registry.ids.attempts = _ :=
    congrArg SessionRegistry.Setting.attempts hregistry
  have hdraw' : (net.node i).tunnels.ids.draw = _ := congrArg Node.Setting.tunnelDraw hset
  have hattempts' : (net.node i).tunnels.ids.attempts = _ :=
    congrArg Node.Setting.tunnelAttempts hset
  constructor
  · obtain ⟨used, hlength, hused⟩ := hgained.covered hsessions
    refine SessionRegistry.spare_of_supplies ?_ used hlength hused
    rw [hdraw, hattempts]
    exact hsupply
  · obtain ⟨used, hlength, hused⟩ := hgained'.covered htunnels
    refine IdPool.Supplies.finds ?_ used hlength fun id hid => ?_
    · rw [hdraw', hattempts']
      exact hsupply'
    · exact hused id (Option.isSome_iff_ne_none.1 hid)

/-- A build sees plentiful networks only, if the pools are stocked for it. -/
theorem build_sees_plentiful {mode : TunnelMode} {hops : List Hop}
    (h : net.Stocked (2 * hops.length + 2)) (i : Fin n) (now : Instant) :
    (act i (Node.build mode hops).run).Sees Plentiful now net := by
  have hgrown : (act i (Node.build mode hops).run).Sees _ now net :=
    (act_keepsTo (fun n => takes_build mode hops) i now net).sees
  exact hgrown.mono fun net' hnet' => hnet'.plentiful h

end Network

end OnionTunnel
