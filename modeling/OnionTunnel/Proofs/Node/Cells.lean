import OnionTunnel.Proofs.Node.Links

/-!
# Cells on a route

A cell in the layers of a route gets to the last hop as the text inside, and what comes of that text
goes back in the layers of the route. `Layered` says what is left of a statement about the text's
outcome when the outcome goes through layers.
-/

namespace OnionTunnel.Network

open Function SessionRegistry Sealed

variable {n : Nat} {S : Setting n} {V : Network n → Prop} {now : Instant} {depth : Nat}
  {i owner : Fin n} {b : Books n}

/-- A reply comes back in layers if it fits with them; any failure comes back as one. -/
def Layered (keys : List (Bytes × Bytes)) (E : Except TunnelError Bytes → Books n → Prop)
    (res : Except TunnelError Bytes) (b' : Books n) : Prop :=
  (∃ reply blob, res = .ok blob ∧ E (.ok reply) b' ∧ Peels keys blob reply ∧
    reply.length + overhead * keys.length + layerReplyHeader ≤ maxPayload) ∨
  (∃ e, res = .error e) ∧ ((∃ e, E (.error e) b') ∨ ∃ reply, E (.ok reply) b' ∧
    maxPayload < reply.length + overhead * keys.length + layerReplyHeader)

/-- What comes back in inner layers comes back in an outer one, too. -/
theorem Layered.cons {key : Bytes × Bytes} {keys : List (Bytes × Bytes)}
    {E : Except TunnelError Bytes → Books n → Prop} {res : Except TunnelError Bytes} {b' : Books n}
    (h : Layered [key] (Layered keys E) res b') : Layered (key :: keys) E res b' := by
  have hcount : overhead * (key :: keys).length = overhead * keys.length + overhead := by
    rw [List.length_cons, Nat.mul_succ]
  unfold Layered at h ⊢
  rw [hcount]
  simp only [List.length_singleton, Nat.mul_one] at h
  obtain ⟨outer, blob, rfl, hinner, hpeels, hfit⟩ | ⟨herror, hinner⟩ := h
  · obtain ⟨reply, _, ⟨⟩, hE, hrest, -⟩ | ⟨⟨_, ⟨⟩⟩, -⟩ := hinner
    refine .inl ⟨reply, blob, rfl, hE, hpeels.append hrest, ?_⟩
    have hlen := hrest.length_eq
    omega
  · refine .inr ⟨herror, ?_⟩
    obtain ⟨e, hinner⟩ | ⟨outer, hinner, hlong⟩ := hinner
    · obtain ⟨_, _, ⟨⟩, _⟩ | ⟨-, hE | ⟨reply, hE, hlong⟩⟩ := hinner
      · exact .inl hE
      · exact .inr ⟨reply, hE, by omega⟩
    · obtain ⟨reply, _, ⟨⟩, hE, hrest, -⟩ | ⟨⟨_, ⟨⟩⟩, -⟩ := hinner
      have hlen := hrest.length_eq
      exact .inr ⟨reply, hE, by omega⟩

theorem Layered.exists_outcome {keys : List (Bytes × Bytes)}
    {E : Except TunnelError Bytes → Books n → Prop} {res : Except TunnelError Bytes} {b' : Books n}
    (h : Layered keys E res b') : ∃ res', E res' b' := by
  obtain ⟨reply, _, -, hE, -⟩ | ⟨-, ⟨e, hE⟩ | ⟨reply, hE, -⟩⟩ := h
  · exact ⟨_, hE⟩
  · exact ⟨_, hE⟩
  · exact ⟨_, hE⟩

theorem Layered.length_le {keys : List (Bytes × Bytes)}
    {E : Except TunnelError Bytes → Books n → Prop} (blob : Bytes) (b' : Books n)
    (h : Layered keys E (.ok blob) b') : 4 + blob.length ≤ maxPayload := by
  obtain ⟨reply, _, ⟨⟩, -, hpeels, hfit⟩ | ⟨⟨_, ⟨⟩⟩, -⟩ := h
  rw [hpeels.length_eq, Nat.add_comm]
  exact hfit

theorem Layered.error_congr {keys : List (Bytes × Bytes)}
    {E : Except TunnelError Bytes → Books n → Prop} (e e' : TunnelError) (b' : Books n)
    (h : Layered keys E (.error e) b') : Layered keys E (.error e') b' := by
  obtain ⟨_, _, ⟨⟩, _⟩ | ⟨-, h⟩ := h
  exact .inr ⟨⟨e', rfl⟩, h⟩

/-- What a hop does goes back in its own layer. -/
theorem does_wrapped (hS : S.Own) {id : UInt32} {y : Session} (husable : y.Usable)
    {x : Node.Action Bytes} {E : Except TunnelError Bytes → Books n → Prop}
    (hx : Does S V now (depth + 1) i b x E)
    (hkeep : ∀ res b', E res b' → (b' i).session id = some y) :
    Does S V now (depth + 1) i b (x >>= Node.encryptLayers [id]) (Layered [y.outward] E) := by
  refine hx.bind ?_ ?_
  · intro reply b' hE
    have hsession : [id].map (b' i).session = [y].map some := by simp [hkeep _ _ hE]
    refine (does_encryptLayers hS hsession (by simpa using husable) reply).mono ?_
    rintro _ _ ⟨⟨blob, rfl, hpeels, hlen, -, hfit⟩ | ⟨herror, hlong⟩, rfl⟩
    · exact .inl ⟨reply, blob, rfl, hE, hpeels, hlen ▸ hfit⟩
    · refine .inr ⟨herror, .inr ⟨reply, hE, ?_⟩⟩
      simp only [List.length_singleton] at hlong ⊢
      omega
  · intro e b' hE
    exact .inr ⟨⟨e, rfl⟩, .inl ⟨e, hE⟩⟩

/-- A hop takes its layer off a cell, passes the rest on or does what it says, and puts its layer
on what comes of it. -/
theorem does_handleCell (hS : S.Own) {id : UInt32} {link : Link} {y : Session}
    (hlink : (b i).link id = some link) (hy : (b i).session id = some y) (husable : y.Usable)
    {cell inner : Bytes} (hcell : Peels [y.inward] cell inner)
    (hfit : 4 + 4 + cell.length ≤ maxPayload) {E : Except TunnelError Bytes → Books n → Prop}
    (hend : link.downstream? = none →
      Does S V now (depth + 1) i b (Node.execute id link.peer inner) E)
    (hnext : ∀ next, link.downstream? = some next →
      Does S V now (depth + 1) i b (Node.sendCell next.address next.link inner) E)
    (hkeep : ∀ res b', E res b' → (b' i).session id = some y) :
    Does S V now (depth + 1) i b (Node.handleCell id cell) (Layered [y.outward] E) := by
  refine Does.get fun node _ hrow => ?_
  have hget : node.links.get? id = some link := by
    rw [← hlink, ← hrow]
    rfl
  simp only [hget]
  have hsession : [id].map (b i).session = [y].map some := by simp [hy]
  refine (does_decryptLayers hS hsession (by simpa using husable) cell).bind ?_ ?_
  · rintro _ _ ⟨⟨text, ⟨⟩, htext, -⟩ | ⟨⟨_, ⟨⟩⟩, _⟩, rfl⟩
    obtain rfl := hcell.unique htext
    cases hdown : link.downstream? with
    | none => exact does_wrapped hS husable (hend hdown) hkeep
    | some next => exact does_wrapped hS husable (hnext next hdown) hkeep
  · rintro e _ ⟨⟨_, ⟨⟩, _⟩ | ⟨-, hrefused⟩, rfl⟩
    exact (hrefused ⟨⟨inner, hcell⟩, Nat.le_of_ble_eq_true rfl, hfit⟩).elim

/-- A hop refuses a cell that is too long or that its layer does not come off. -/
theorem does_handleCell_refused (hS : S.Own) {id : UInt32} {link : Link} {y : Session}
    (hlink : (b i).link id = some link) (hy : (b i).session id = some y) (husable : y.Usable)
    {cell : Bytes} (hrefused : 4 + 4 + cell.length ≤ maxPayload → ∀ inner,
      ¬ Peels [y.inward] cell inner) :
    Does S V now (depth + 1) i b (Node.handleCell id cell) fun res b' =>
      (∃ e, res = .error e) ∧ b' = b := by
  refine Does.get fun node _ hrow => ?_
  have hget : node.links.get? id = some link := by
    rw [← hlink, ← hrow]
    rfl
  simp only [hget]
  have hsession : [id].map (b i).session = [y].map some := by simp [hy]
  refine (does_decryptLayers hS hsession (by simpa using husable) cell).bind ?_ ?_
  · rintro inner _ ⟨⟨_, ⟨⟩, hinner, -, hfit⟩ | ⟨⟨_, ⟨⟩⟩, _⟩, -⟩
    exact (hrefused hfit inner hinner).elim
  · rintro e _ ⟨-, rfl⟩
    exact ⟨⟨e, rfl⟩, rfl⟩

/-! ### Asking peers -/

/-- A message to a peer comes to what the service at the address answers. -/
theorem does_askPeer {dest : Address} {s : ServiceOf n} (hdest : S.serviceAt? dest = some s)
    {m m' : Message} (hm : m.transmit = .ok m') {P : Option Message → Books n → Prop}
    (hanswer : Leads S V now depth s.owner b (Node.answer s.service m') P) :
    Does S V now (depth + 1) i b (Node.askPeer dest m) fun res b' =>
      ∃ reply, P reply b' ∧ res = Node.received reply := by
  refine Does.get fun node _ _ => ?_
  refine (does_request (yields_service hdest hm hanswer)).mono ?_
  rintro _ _ ⟨_, ⟨reply, rfl, hP⟩, rfl⟩
  exact ⟨reply, hP, Node.ofOutcome_ofReply reply⟩

/-- A message that is not written, or that nobody receives, is not answered. -/
theorem does_askPeer_undelivered {dest : Address} {m : Message}
    (h : (S.Unscripted dest ∧ S.serviceAt? dest = none) ∨ ∃ e, m.transmit = .error e) :
    Does S V now (depth + 1) i b (Node.askPeer dest m) fun res b' =>
      (∃ e, res = .error e) ∧ b' = b := by
  refine Does.get fun node _ _ => ?_
  obtain ⟨hplain, hdest⟩ | ⟨e, hm⟩ := h
  · refine (does_request (yields_unregistered hplain hdest m)).mono ?_
    rintro _ _ ⟨_, ⟨⟨e, rfl⟩, rfl⟩, rfl⟩
    exact ⟨⟨_, rfl⟩, rfl⟩
  · refine (does_request (yields_unwritten dest hm)).mono ?_
    rintro _ _ ⟨_, ⟨⟨e, rfl⟩, rfl⟩, rfl⟩
    exact ⟨⟨_, rfl⟩, rfl⟩

/-- A message that a service leaves without an answer fails. -/
theorem does_askPeer_ignored {dest : Address} {s : ServiceOf n} (hdest : S.serviceAt? dest = some s)
    {m m' : Message} (hm : m.transmit = .ok m')
    (hanswer : Leads S V now depth s.owner b (Node.answer s.service m') fun reply b' =>
      reply = none ∧ b' = b) :
    Does S V now (depth + 1) i b (Node.askPeer dest m) fun res b' =>
      (∃ e, res = .error e) ∧ b' = b := by
  refine (does_askPeer hdest hm hanswer).mono ?_
  rintro _ _ ⟨_, ⟨rfl, rfl⟩, rfl⟩
  exact ⟨⟨_, rfl⟩, rfl⟩

/-! ### Sending cells -/

/-- The reply of a hop to a cell. -/
theorem leads_answerCell {link : UInt32} {cell : Bytes}
    {Q : Except TunnelError Bytes → Books n → Prop}
    (h : Does S V now depth i b (Node.handleCell link cell) Q) :
    Leads S V now depth i b (Node.answer .peers (.tunnelData link cell)) fun reply b' =>
      (∃ blob, reply = some (.tunnelData link blob) ∧ Q (.ok blob) b') ∨
      reply = some (Node.failure .tunnelData link) ∧ ∃ e, Q (.error e) b' := by
  apply Leads.bind h
  rintro (e | blob) b' hQ
  · exact Leads.pure (.inr ⟨rfl, e, hQ⟩)
  · exact Leads.pure (.inl ⟨blob, rfl, hQ⟩)

/-- A cell to a peer comes to what the peer's handling of it comes to. -/
theorem does_sendCell_peers {dest : Address} {link : UInt32} {j : Fin n}
    (hdest : S.serviceAt? dest = some ⟨j, .peers⟩) {cell : Bytes}
    (hfit : 4 + cell.length ≤ maxPayload) {Q : Except TunnelError Bytes → Books n → Prop}
    (h : Does S V now depth j b (Node.handleCell link cell) Q)
    (hshort : ∀ blob b', Q (.ok blob) b' → 4 + blob.length ≤ maxPayload)
    (herror : ∀ e e' b', Q (.error e) b' → Q (.error e') b') :
    Does S V now (depth + 1) i b (Node.sendCell dest link cell) Q := by
  have hm : Message.transmit (.tunnelData link cell) = .ok (.tunnelData link cell) :=
    Message.transmit_of_plain rfl hfit
  refine Does.bind (P := fun res b' => (∃ blob, res = .ok (.tunnelData link blob) ∧
    Q (.ok blob) b') ∨ res = .ok (Node.failure .tunnelData link) ∧ ∃ e, Q (.error e) b') ?_ ?_ ?_
  · refine (does_askPeer hdest hm (leads_answerCell h)).mono ?_
    rintro _ b' ⟨_, ⟨blob, rfl, hQ⟩ | ⟨rfl, hQ⟩, rfl⟩
    · exact .inl ⟨blob, received_of_plain rfl (hshort blob b' hQ), hQ⟩
    · exact .inr ⟨received_of_plain rfl (show 8 ≤ maxPayload by decide), hQ⟩
  · rintro _ b' (⟨blob, ⟨⟩, hQ⟩ | ⟨⟨⟩, e, hQ⟩)
    · exact Does.pure hQ
    · exact Does.throw (herror e _ b' hQ)
  · rintro e b' (⟨_, ⟨⟩, _⟩ | ⟨⟨⟩, _⟩)

section Hops
variable {dest : Address} {j : Fin n} {id : UInt32} {link : Link} {y : Session} {cell : Bytes}

/-- A hop whose layer does not come off a cell, or that cannot ask for it, refuses the cell. -/
theorem does_sendCell_refused (hS : S.Own) (hdest : S.serviceAt? dest = some ⟨j, .peers⟩)
    (hlink : (b j).link id = some link) (hy : (b j).session id = some y) (husable : y.Usable)
    (hrefused : 4 + 4 + cell.length ≤ maxPayload → ∀ inner, ¬ Peels [y.inward] cell inner) :
    Does S V now (depth + 2) i b (Node.sendCell dest id cell) fun res b' =>
      (∃ e, res = .error e) ∧ b' = b := by
  by_cases hfit : 4 + cell.length ≤ maxPayload
  · refine does_sendCell_peers hdest hfit
      (does_handleCell_refused hS hlink hy husable hrefused) ?_ ?_
    · rintro _ _ ⟨⟨_, ⟨⟩⟩, -⟩
    · rintro _ _ _ ⟨-, rfl⟩
      exact ⟨⟨_, rfl⟩, rfl⟩
  · refine (does_askPeer_undelivered (.inr ?_)).bind ?_ ?_
    · exact Message.transmit_of_unfit fun h => hfit h.1
    · rintro _ _ ⟨⟨_, ⟨⟩⟩, -⟩
    · rintro e _ ⟨-, rfl⟩
      exact ⟨⟨e, rfl⟩, rfl⟩

/-- Whatever a cell is, its sender is left with the books as they were, or with what comes of some
text that the hop has passed on or has done. -/
theorem does_sendCell_any (hS : S.Own) (hdest : S.serviceAt? dest = some ⟨j, .peers⟩)
    (hlink : (b j).link id = some link) (hy : (b j).session id = some y) (husable : y.Usable)
    (cell : Bytes) {P : Books n → Prop} (hb : P b)
    (hend : ∀ inner, link.downstream? = none →
      Does S V now (depth + 1) j b (Node.execute id link.peer inner) fun _ b' => P b')
    (hnext : ∀ inner next, link.downstream? = some next →
      Does S V now (depth + 1) j b (Node.sendCell next.address next.link inner) fun _ b' => P b')
    (hkeep : ∀ b', P b' → (b' j).session id = some y) :
    Does S V now (depth + 2) i b (Node.sendCell dest id cell) fun _ b' => P b' := by
  by_cases hpeels : 4 + 4 + cell.length ≤ maxPayload ∧ ∃ inner, Peels [y.inward] cell inner
  · obtain ⟨hfit, inner, hinner⟩ := hpeels
    have hhandled : Does S V now (depth + 1) j b (Node.handleCell id cell)
        (Layered [y.outward] fun _ b' => P b') :=
      does_handleCell hS hlink hy husable hinner hfit (hend inner) (hnext inner)
        fun _ b' => hkeep b'
    refine (does_sendCell_peers hdest (by omega) hhandled Layered.length_le
      Layered.error_congr).mono ?_
    rintro _ b' hlayered
    exact hlayered.exists_outcome.choose_spec
  · refine (does_sendCell_refused hS hdest hlink hy husable fun hfit inner hinner =>
      hpeels ⟨hfit, inner, hinner⟩).mono ?_
    rintro _ _ ⟨-, rfl⟩
    exact hb

end Hops

/-- A session service does not answer cells. -/
theorem does_sendCell_sessions {dest : Address} {j : Fin n}
    (hdest : S.serviceAt? dest = some ⟨j, .sessions⟩) (link : UInt32) (cell : Bytes) :
    Does S V now (depth + 1) i b (Node.sendCell dest link cell) fun res b' =>
      (∃ e, res = .error e) ∧ b' = b := by
  have hasked : Does S V now (depth + 1) i b (Node.askPeer dest (.tunnelData link cell))
      fun res b' => (∃ e, res = .error e) ∧ b' = b := by
    obtain hm | hm := Message.transmit_cases (.tunnelData link cell)
    · exact does_askPeer_undelivered (.inr hm)
    · refine does_askPeer_ignored hdest hm ((leads_sessions (answers_tunnelData link cell)).mono ?_)
      rintro _ _ ⟨v, ⟨rfl, rfl⟩, rfl⟩
      exact ⟨rfl, Books.withSessions_self b j⟩
  refine hasked.bind ?_ ?_
  · rintro _ _ ⟨⟨_, ⟨⟩⟩, -⟩
  · rintro e _ ⟨-, rfl⟩
    exact ⟨⟨e, rfl⟩, rfl⟩

/-- The keys of the layers on what goes through a route, the outermost one first. -/
def onward (legs : List (Leg n)) : List (Bytes × Bytes) := legs.map (·.near.outward)

/-- The keys of the layers on what comes back through a route, the outermost one first. -/
def homeward (legs : List (Leg n)) : List (Bytes × Bytes) := legs.map (·.near.inward)

/-- A cell in the layers of a route is done at the last hop, and what comes of it goes back in the
layers of the route. Past a route that ends at a session service, nothing is done. -/
theorem does_sendCell_route (hS : S.Own) {peer : Identity} {l : Leg n} {rest : List (Leg n)}
    (hlinked : Linked S b peer (l :: rest))
    (hheld : ∀ l' ∈ l :: rest, ∀ f, l'.far? = some f → FarHeld S b owner l' f)
    {cell command : Bytes} (hcell : Peels (onward (l :: rest)) cell command)
    (hfit : 4 + 4 + cell.length ≤ maxPayload) {E : Except TunnelError Bytes → Books n → Prop}
    (hdone : ∀ l' f, (l :: rest).getLast? = some l' → l'.far? = some f →
      Does S V now (depth + 1) f.node b (Node.execute l'.hop.link peer command) E)
    (hlost : ∀ l', (l :: rest).getLast? = some l' → l'.far? = none → ∀ e, E (.error e) b)
    (hkeep : ∀ l' ∈ l :: rest, ∀ f, l'.far? = some f → ∀ res b', E res b' →
      (b' f.node).session l'.hop.link = some f.session) :
    Does S V now (depth + 1 + (l :: rest).length) i b (Node.sendCell l.dialled l.hop.link cell)
      (Layered (homeward (l :: rest)) E) := by
  -- Along the route: what the hops after the first one come to is what its handling comes to.
  induction rest generalizing i l cell with
  | nil =>
      have hreached := hlinked.1
      unfold Reached at hreached
      cases hfar : l.far? with
      | none =>
        simp only [hfar] at hreached
        obtain ⟨-, j, hdest⟩ := hreached
        refine (does_sendCell_sessions hdest _ cell).mono ?_
        rintro _ _ ⟨⟨e, rfl⟩, rfl⟩
        exact .inr ⟨⟨e, rfl⟩, .inl ⟨e, hlost l rfl hfar e⟩⟩
      | some f =>
        simp only [hfar] at hreached
        have hf := hheld l (by simp) f hfar
        have hback : homeward [l] = [f.session.outward] := by simp [homeward, hf.paired.back]
        rw [onward, List.map_singleton, hf.paired.forth] at hcell
        rw [hback]
        refine does_sendCell_peers hreached.1 (by omega) (does_handleCell hS hreached.2 hf.accepted
          hf.usable hcell hfit (fun _ => hdone l f rfl hfar) ?_ ?_) Layered.length_le
          Layered.error_congr
        · rintro _ ⟨⟩
        · exact hkeep l (by simp) f hfar
  | cons l' rest ih =>
      have hreached := hlinked.1
      unfold Reached at hreached
      cases hfar : l.far? with
      | none => simp [hfar] at hreached
      | some f =>
        simp only [hfar] at hreached
        have hf := hheld l (by simp) f hfar
        obtain ⟨inner, hinner, hrest⟩ := hcell
        have hlen := Sealed.length_unwrap hinner
        have hback : homeward (l :: l' :: rest) = f.session.outward :: homeward (l' :: rest) := by
          simp [homeward, hf.paired.back]
        have hpeel : Peels [f.session.inward] cell inner := by
          rw [← hf.paired.forth]
          exact ⟨inner, hinner, rfl⟩
        have hnext := ih (i := f.node) hlinked.2 (fun l'' hl'' => hheld l'' (List.mem_cons_of_mem l hl''))
          hrest (by omega) hdone hlost fun l'' hl'' => hkeep l'' (List.mem_cons_of_mem l hl'')
        have hkept : ∀ res b', Layered (homeward (l' :: rest)) E res b' →
            (b' f.node).session l.hop.link = some f.session := by
          intro res b' hlayered
          obtain ⟨res', hE⟩ := hlayered.exists_outcome
          exact hkeep l (by simp) f hfar res' b' hE
        rw [hback]
        refine does_sendCell_peers hreached.1 (by omega) (Does.mono (does_handleCell hS hreached.2
          hf.accepted hf.usable hpeel hfit (fun hnone => by cases hnone) ?_ hkept)
          fun _ _ => Layered.cons) Layered.length_le Layered.error_congr
        rintro _ ⟨⟩
        exact hnext

end OnionTunnel.Network
