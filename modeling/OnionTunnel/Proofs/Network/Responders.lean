import OnionTunnel.Proofs.Node.Rollback
import OnionTunnel.Proofs.Node.Stays

/-!
# A node among responders

What a node does in a network in which nothing calls it back is a run of its program among others
that do as they like. This is so where responders are all that answers, next to the node's own
session service, and whatever their scripts say: a build that fails there leaves the node with the
sessions and the tunnels that it had.
-/

namespace OnionTunnel

/-! ### What a process keeps -/

namespace Timed

variable {S α β : Type} {I : S → Prop} {p : Timed S α} {now later : Instant} {s s' : S}

/-- A process that goes on with the result of another one has come to the end of that one. -/
theorem run_bind_cases {f : α → Timed S β} {b : β}
    (h : (p.bind f).run now s = (some b, later, s')) :
    ∃ a now₁ s₁, p.run now s = (some a, now₁, s₁) ∧ (f a).run now₁ s₁ = (some b, later, s') := by
  induction p generalizing now s with
  | done a => exact ⟨a, now, s, rfl, h⟩
  | read k ih => exact ih now s h
  | write s₁ p ih => exact ih h
  | pause t p ih => exact ih h
  | stuck => cases h

/-- If a statement is true of the states that the process looks at, it is true of those that it
writes. -/
inductive Keeps (I : S → Prop) : Timed S α → Prop
  | done (a : α) : Keeps I (.done a)
  | read {k : Instant → S → Timed S α} (h : ∀ now s, I s → Keeps I (k now s)) : Keeps I (.read k)
  | write {s : S} {p : Timed S α} (hs : I s) (h : Keeps I p) : Keeps I (.write s p)
  | pause {t : Nat} {p : Timed S α} (h : Keeps I p) : Keeps I (.pause t p)
  | stuck : Keeps I .stuck

namespace Keeps

theorem change {f : S → S} (h : ∀ s, I s → I (f s)) : (Timed.change f).Keeps I :=
  .read fun _ s hs => .write (h s hs) (.done ())

theorem look {f : S → Timed S α} (h : ∀ s, I s → (f s).Keeps I) : (Timed.look >>= f).Keeps I :=
  .read fun _ s hs => h s hs

theorem sleep (d : Duration) : (Timed.sleep d : Timed S Unit).Keeps I := .pause (.done ())

theorem bind {f : α → Timed S β} (hp : p.Keeps I) (hf : ∀ a, (f a).Keeps I) :
    (p.bind f).Keeps I := by
  induction hp with
  | done a => exact hf a
  | read _ ih => exact .read ih
  | write hs _ ih => exact .write hs ih
  | pause _ ih => exact .pause ih
  | stuck => exact .stuck

/-- A process that is cut off has kept what it would have kept. -/
theorem within (hp : p.Keeps I) (limit : Nat) : (p.within limit).Keeps I := by
  induction hp generalizing limit with
  | done a => exact .done (some a)
  | read _ ih => exact .read fun now s hs => ih now s hs limit
  | write hs _ ih => exact .write hs (ih limit)
  | pause _ ih =>
    rw [Timed.within]
    split
    · exact .pause (ih _)
    · exact .pause (.done none)
  | stuck => exact .stuck

theorem run (hp : p.Keeps I) (now : Instant) (hs : I s) : I (p.run now s).2.2 := by
  induction hp generalizing now s with
  | done a => exact hs
  | read _ ih => exact ih now s hs now hs
  | write hs' _ ih => exact ih now hs'
  | pause _ ih => exact ih _ hs
  | stuck => exact hs

end Keeps

end Timed

/-! ### Scripts -/

namespace Responder

variable {σ : Type} {r : Responder σ}

theorem passTo?_dequeue (r : Responder σ) : r.dequeue.2.passTo? = r.passTo? := by
  cases h : r.queue <;> simp only [dequeue, h]

/-- What is not passed on is answered by the script. -/
theorem decide_cases (hpass : r.passTo? = none) (m : Message) :
    (∃ reply, r.decide m = .reply reply) ∨ r.decide m = .next := by
  simp only [decide, hpass]
  split
  · exact .inl ⟨_, rfl⟩
  · split
    · exact .inl ⟨_, rfl⟩
    · exact .inr rfl

end Responder

/-! ### Runs in a network -/

namespace Network

open Node

variable {n : Nat} {α : Type} {sender : Sender n} {i : Fin n} {a : Address} {I : Network n → Prop}
  {net net' : Network n} {now later : Instant}

/-- A sender takes messages to an address to the sessions of a node, and nothing else that it sends
changes the node. Both keep a statement about the network true. -/
structure Shields (sender : Sender n) (i : Fin n) (a : Address) (I : Network n → Prop) : Prop where
  service : ∀ net, I net → (net.node i).sessionService = a
  setNode : ∀ net node, I net → node.sessionService = a → I (net.setNode i node)
  own : ∀ net now m, I net → ∃ net',
    (sender a m).Ends now net (ownExchange now m (net.node i).registry).1 net' ∧ I net' ∧
      net'.node i =
        { net.node i with registry := (ownExchange now m (net.node i).registry).2 }
  others : ∀ dest m node, dest ≠ a → (sender dest m).Keeps fun net => I net ∧ net.node i = node

theorem keeps_limited {p : Activity n Outcome} (h : p.Keeps I) (limit : Option Duration) :
    (limited limit p).Keeps I := by
  cases limit with
  | none => exact h
  | some d => exact (h.within _).bind fun _ => .done _

/-- What a node's program comes to in a network is a run of it, if the node is shielded. -/
theorem Shields.runs (h : Shields sender i a I) {p : Program Node α} (hp : Stays a p)
    (hI : I net) {c : α} (hrun : (perform sender i p).run now net = (some c, later, net')) :
    ∃ t, Runs p (net.node i) t c (net'.node i) := by
  induction hp generalizing now net with
  | done c' =>
      cases hrun
      exact ⟨[], .done⟩
  | read _ ih =>
      obtain ⟨t, ht⟩ := ih now (net.node i) (h.service net hI) hI hrun
      exact ⟨t, .read now ht⟩
  | write hn _ ih =>
      obtain ⟨t, ht⟩ := ih (h.setNode net _ hI hn) hrun
      rw [node_setNode, if_pos rfl] at ht
      exact ⟨t, .write ht⟩
  | @send dest m limit k _ ih =>
      obtain ⟨o, now₁, net₁, hsent, hrest⟩ := Timed.run_bind_cases hrun
      by_cases hdest : dest = a
      · subst hdest
        obtain ⟨net₂, hends, hI₂, hnode⟩ := h.own net now m hI
        rw [(ends_limited hends limit).run_eq] at hsent
        cases hsent
        obtain ⟨t, ht⟩ := ih _ hI₂ hrest
        rw [hnode] at ht
        exact ⟨t, .ask now (h.service net hI).symm ht⟩
      · have hkept := (keeps_limited (h.others dest m (net.node i) hdest) limit).run now ⟨hI, rfl⟩
        rw [hsent] at hkept
        obtain ⟨hI₁, hnode⟩ := hkept
        obtain ⟨t, ht⟩ := ih o hI₁ hrest
        rw [hnode] at ht
        refine ⟨⟨dest, m, o⟩ :: t, .send o ?_ ht⟩
        rw [h.service net hI]
        exact hdest

/-! ### Responders -/

/-- A node's own sessions answer where it asks for them, and nothing but responders that pass no
message on answers elsewhere. -/
structure Secluded (net : Network n) (i : Fin n) (a : Address) : Prop where
  service : (net.node i).sessionService = a
  own : net.endpoints.get? a = some (.service ⟨i, .sessions⟩)
  others : ∀ dest e, dest ≠ a → net.endpoints.get? dest = some e →
    ∃ r, e = .responder r ∧ r.passTo? = none

theorem Secluded.setNode (h : Secluded net i a) {node : Node} (hnode : node.sessionService = a) :
    Secluded (net.setNode i node) i a := by
  refine ⟨?_, h.own, h.others⟩
  rw [node_setNode, if_pos rfl]
  exact hnode

/-- Another script of a responder that passes nothing on. -/
theorem Secluded.script (h : Secluded net i a) {dest : Address} (hdest : dest ≠ a)
    {r : Responder (ServiceOf n)} (hr : r.passTo? = none) :
    Secluded { net with endpoints := net.endpoints.insert dest (.responder r) } i a := by
  refine ⟨h.service, ?_, ?_⟩
  · exact (Table.get?_insert_of_ne _ _ hdest.symm).trans h.own
  · intro dest' e hne he
    by_cases heq : dest' = dest
    · subst heq
      rw [Table.get?_insert_self] at he
      exact ⟨r, (Option.some.inj he).symm, hr⟩
    · rw [Table.get?_insert_of_ne _ _ heq] at he
      exact h.others dest' e hne he

/-- A responder that passes nothing on may be added. -/
theorem Secluded.register (h : Secluded net i a) {dest : Address} (hdest : dest ≠ a)
    {r : Responder (ServiceOf n)} (hr : r.passTo? = none) :
    Secluded (net.register dest (.responder r)) i a :=
  ⟨h.service, (h.script hdest hr).own, (h.script hdest hr).others⟩

/-- A node whose session service is all that answers is secluded. -/
theorem secluded_sessions (hnone : net.endpoints = .empty) (i : Fin n) :
    Secluded (net.register (net.node i).sessionService (.service ⟨i, .sessions⟩)) i
      (net.node i).sessionService := by
  refine ⟨rfl, Table.get?_insert_self _ _ _, ?_⟩
  intro dest e hne he
  have hempty : net.endpoints.get? dest = some e := by
    rwa [← Table.get?_insert_of_ne _ _ hne]
  rw [hnone] at hempty
  cases hempty

/-- Session requests are answered at once by the node's registry. -/
theorem ends_answerSessions (sender : Sender n) (i : Fin n) (now : Instant) (m : Message)
    (net : Network n) :
    (answerService sender ⟨i, .sessions⟩ m).Ends now net ((net.node i).registry.handle now m).1
      (net.setNode i { net.node i with registry := ((net.node i).registry.handle now m).2 }) :=
  .read (.read (.read (.write .done)))

theorem Secluded.own_ends (h : Secluded net i a) (depth : Nat) (now : Instant) (m : Message) :
    ∃ net',
      (exchange (depth + 1) a m).Ends now net (ownExchange now m (net.node i).registry).1 net' ∧
      Secluded net' i a ∧ net'.node i =
        { net.node i with registry := (ownExchange now m (net.node i).registry).2 } := by
  rw [exchange_succ]
  obtain ⟨e, he⟩ | hok := m.transmit_cases
  · simp only [ownExchange, he]
    refine ⟨net, .read ?_, h, rfl⟩
    simp only [h.own]
    exact .done
  · have hanswer := ends_answerSessions (exchange depth) i now m.canonical net
    have hnode : (net.setNode i { net.node i with
        registry := ((net.node i).registry.handle now m.canonical).2 }).node i = _ :=
      (node_setNode net i i _).trans (if_pos rfl)
    simp only [ownExchange, hok]
    refine ⟨_, .read ?_, h.setNode ?_, hnode⟩
    · simp only [h.own]
      exact hanswer.bind .done
    · exact h.service

/-- A node is secluded and has not changed. -/
def Untouched (i : Fin n) (a : Address) (node : Node) (net : Network n) : Prop :=
  Secluded net i a ∧ net.node i = node

theorem keeps_dequeueAt {dest : Address} (hdest : dest ≠ a) (node : Node) :
    (dequeueAt dest).Keeps (Untouched i a node) := by
  refine Timed.Keeps.look fun net hnet => ?_
  split
  · next r hr =>
    obtain ⟨_, ⟨⟩, hpass⟩ := hnet.1.others dest _ hdest hr
    refine Timed.Keeps.bind (Timed.Keeps.change ?_) fun _ => .done _
    rintro net' ⟨hleft, hnode⟩
    exact ⟨hleft.script hdest (r.passTo?_dequeue.trans hpass), hnode⟩
  · exact .done none

theorem keeps_answerResponder (sender : Sender n) {dest : Address} (hdest : dest ≠ a) (node : Node)
    {r : Responder (ServiceOf n)} (hpass : r.passTo? = none) (m : Message) :
    (answerResponder sender dest r m).Keeps (Untouched i a node) := by
  refine Timed.Keeps.bind (Timed.Keeps.change ?_) fun _ => ?_
  · rintro net' ⟨⟨hservice, hown, hothers⟩, hnode⟩
    exact ⟨⟨hservice, hown, hothers⟩, hnode⟩
  · obtain ⟨reply, hdecide⟩ | hdecide := r.decide_cases hpass m
    · simp only [hdecide]
      split
      · exact Timed.Keeps.bind (.sleep _) fun _ => .done reply
      · exact .done reply
    · simp only [hdecide]
      split
      · exact Timed.Keeps.bind (.sleep _) fun _ => keeps_dequeueAt hdest node
      · exact keeps_dequeueAt hdest node

theorem keeps_exchange (depth : Nat) {dest : Address} (hdest : dest ≠ a) (node : Node)
    (m : Message) : (exchange (depth + 1) dest m).Keeps (Untouched i a node) := by
  rw [exchange_succ]
  refine .read fun _ net hnet => ?_
  cases he : net.endpoints.get? dest with
  | none => exact .done _
  | some e =>
    obtain ⟨r, rfl, hpass⟩ := hnet.1.others dest e hdest he
    cases m.transmit with
    | error fault => exact .done _
    | ok arrived =>
      exact (keeps_answerResponder _ hdest node hpass arrived).bind fun _ => .done _

/-- A node that nothing but responders surrounds is shielded. -/
theorem shields_exchange (depth : Nat) (i : Fin n) (a : Address) :
    Shields (exchange (depth + 1)) i a fun net => Secluded net i a where
  service _ h := h.service
  setNode _ _ h hnode := h.setNode hnode
  own _ now m h := h.own_ends depth now m
  others _ m node hdest := keeps_exchange depth hdest node m

/-- What a node does among responders is a run of its program. -/
theorem Secluded.runs_act (h : Secluded net i a) {p : Program Node α} (hp : Stays a p) {c : α}
    (hrun : (act i p).run now net = (some c, later, net')) :
    ∃ t, Runs p (net.node i) t c (net'.node i) := by
  obtain ⟨d, hd⟩ : ∃ d, net.depth = d + 1 := ⟨net.depth - 1, by have := le_depth net; omega⟩
  have hperform : (perform (exchange net.depth) i p).run now net = (some c, later, net') := hrun
  rw [hd] at hperform
  exact (shields_exchange d i a).runs hp h hperform

/-- A build that fails among responders has failed for the reason that it gives, and has left its
owner with the sessions and the tunnels that it had. -/
theorem Secluded.restored_of_act_build (h : Secluded net i a) {mode : TunnelMode} {hops : List Hop}
    (hother : ∀ hop ∈ addressed mode hops, hop.address ≠ a) {e : TunnelError}
    (hrun : (act i (build mode hops).run).run now net = (some (.error e), later, net')) :
    (∃ t, Failure mode hops (net.node i) e t) ∧ Restored (net.node i) (net'.node i) := by
  obtain ⟨t, ht⟩ := h.runs_act (stays_build mode hops) hrun
  rw [← h.service] at hother
  obtain ⟨hfailure, hrestored⟩ := acts_build hother t _ _ ht e rfl
  exact ⟨⟨t, hfailure⟩, hrestored⟩

end Network

end OnionTunnel
