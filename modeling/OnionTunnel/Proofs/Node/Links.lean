import OnionTunnel.Proofs.Network.Strands
import OnionTunnel.Proofs.Node.Sessions

/-!
# Dropping links

A hop that is told to drop a link strikes it and its session out and tells the next hop. So where
a strand hangs, every end of it is struck out.
-/

namespace OnionTunnel.Network

open Function SessionRegistry

variable {n : Nat} {S : Setting n} {V : Network n → Prop} {now : Instant} {depth : Nat}
  {i : Fin n} {b : Books n}

/-- Peers answer no notice; what a hop does about it is all that is left. -/
theorem leads_dropLink_peers {dest : Address} {link : UInt32} {j : Fin n}
    (hdest : S.serviceAt? dest = some ⟨j, .peers⟩) {Q : Books n → Prop}
    (h : Leads S V now depth j b (Node.handleDestroy link) fun _ b' => Q b') :
    Leads S V now (depth + 1) i b (Node.dropLink dest link) fun _ b' => Q b' := by
  have hm : Message.transmit (.tunnelDestroy link) = .ok (.tunnelDestroy link) :=
    Message.transmit_of_plain rfl (show 4 ≤ maxPayload by decide)
  have hanswer : Leads S V now depth j b (Node.answer .peers (.tunnelDestroy link))
      fun _ b' => Q b' := Leads.bind h fun _ _ hQ => Leads.pure hQ
  refine Leads.get fun node _ _ => ?_
  apply Leads.bind (Leads.exchange (yields_service hdest hm hanswer))
  rintro _ _ ⟨_, -, hQ⟩
  exact Leads.pure hQ

/-- A session service ignores notices of links. -/
theorem leads_dropLink_sessions {dest : Address} {link : UInt32} {j : Fin n}
    (hdest : S.serviceAt? dest = some ⟨j, .sessions⟩) :
    Leads S V now (depth + 1) i b (Node.dropLink dest link) fun _ b' => b' = b := by
  have hm : Message.transmit (.tunnelDestroy link) = .ok (.tunnelDestroy link) :=
    Message.transmit_of_plain rfl (show 4 ≤ maxPayload by decide)
  refine Leads.get fun node _ _ => ?_
  refine Leads.bind (Leads.exchange (yields_service hdest hm
    (leads_sessions (answers_tunnelDestroy link)))) ?_
  rintro _ _ ⟨_, -, v, ⟨-, rfl⟩, rfl⟩
  exact Leads.pure (Books.withSessions_self b j)

/-- Erasing a link of a node's table. -/
theorem leads_eraseLink (id : UInt32) :
    Leads S V now depth i b (modify fun node => { node with links := node.links.erase id })
      fun _ b' => b' = b.setLink i id none := by
  refine Leads.modifyGet fun node hset hrow => ⟨hset, ?_⟩
  rw [Books.setLink, ← hrow]
  exact congrArg (update b i) (Row.ext rfl (Table.get?_erase node.links id) rfl rfl)

/-- A hop strikes out a link that it holds, and goes on to the next hop if there is one. -/
theorem leads_handleDestroy (hS : S.Own) {id : UInt32} {link : Link}
    (hlink : (b i).link id = some link) {Q : Books n → Prop}
    (hend : link.downstream? = none → Q (b.without [(i, id)]))
    (hnext : ∀ next, link.downstream? = some next →
      Leads S V now (depth + 1) i (b.without [(i, id)]) (Node.dropLink next.address next.link)
        fun _ b' => Q b') :
    Leads S V now (depth + 1) i b (Node.handleDestroy id) fun _ b' => Q b' := by
  refine Leads.get fun node _ hrow => ?_
  have hget : node.links.get? id = some link := by
    rw [← hlink, ← hrow]
    rfl
  simp only [hget]
  apply Leads.bind (leads_eraseLink id)
  rintro _ _ rfl
  apply Leads.bind (leads_closeSession hS id)
  rintro _ _ rfl
  rw [Books.without_singleton]
  cases hdown : link.downstream? with
  | none => exact Leads.pure (hend hdown)
  | some next => exact hnext next hdown

/-- Telling where a strand hangs strikes out the strand. -/
theorem leads_dropStrand (hS : S.Own) {next : Downstream} {ends : List (End n)}
    (h : Strand S b (some next) ends) (hnodup : ends.Nodup) :
    Leads S V now (depth + 1 + ends.length) i b (Node.dropLink next.address next.link)
      fun _ b' => b' = b.without ends := by
  -- Along the strand; the sender of the notice changes from end to end.
  induction ends generalizing i b next with
  | nil =>
      cases h with
      | lost hdest =>
        rw [Books.without_nil]
        exact leads_dropLink_sessions hdest
  | cons e rest ih =>
      cases h with
      | @cons _ j _ link _ hdest _ _ hlink hrest =>
        obtain ⟨hfresh, hnodup⟩ := List.nodup_cons.1 hnodup
        rw [List.length_cons, ← Nat.add_assoc]
        apply leads_dropLink_peers hdest
        rw [Nat.add_right_comm] at ih ⊢
        refine leads_handleDestroy hS hlink ?_ ?_
        · intro hend
          rw [hend] at hrest
          rw [hrest.eq_nil]
        · intro next' hdown
          rw [hdown] at hrest
          have hkept : Strand S (b.without [(j, next.link)]) (some next') rest := by
            refine hrest.congr fun k x hend => ?_
            have hne : (k, x) ≠ (j, next.link) := fun heq => hfresh (heq ▸ hend)
            simp only [Books.without_apply, List.mem_singleton, if_neg hne, and_self]
          refine (ih hkept hnodup).mono ?_
          rintro _ _ rfl
          exact Books.without_without _ _ _

end OnionTunnel.Network
