import OnionTunnel.Proofs.Node.Tunnels

/-!
# Payloads

A payload that is sent through a route is handed to the sink of the last hop, once, and what the
sink answers comes back in the layers of the route. Nothing else on the books changes.
-/

namespace OnionTunnel.Network

open Function SessionRegistry Sealed

variable {n : Nat} {S : Setting n} {V : Network n → Prop} {now : Instant} {depth : Nat}
  {i : Fin n} {b b' : Books n}
  {legs : List (Leg n)}

/-- A sink answers what is handed to it by what was handed to it before. -/
theorem does_deliver (d : Delivery) :
    Does S V now depth i b (Node.deliver d) fun res b' =>
      res = (S.node i).answer (b i).handed d ∧ b' = b.hand i d := by
  refine Does.get fun node hset hrow => ?_
  have hanswer : node.sink.answer = (S.node i).answer := by
    rw [← hset]
    rfl
  have hhanded : node.sink.handed = (b i).handed := by
    rw [← hrow]
    rfl
  have hdeliver : (node.sink.deliver d).1 = (S.node i).answer (b i).handed d ∧
      (node.sink.deliver d).2.answer = (S.node i).answer ∧
      (node.sink.deliver d).2.handed = (b i).handed ++ [d] := by
    rw [← hanswer, ← hhanded]
    unfold Sink.deliver
    split <;> next heq => exact ⟨heq.symm, rfl, rfl⟩
  rcases hd : node.sink.deliver d with ⟨reply, sink⟩
  obtain ⟨rfl, hsink, hnoted⟩ : reply = (S.node i).answer (b i).handed d ∧
      sink.answer = (S.node i).answer ∧ sink.handed = (b i).handed ++ [d] := by
    rwa [hd] at hdeliver
  refine Does.bind (P := fun res b' => res = .ok ⟨⟩ ∧ b' = b.hand i d) ?_ ?_ ?_
  · refine Does.change fun node' hset' hrow' => ⟨?_, rfl, ?_⟩
    · rw [← hset'] at hsink ⊢
      simp only [Node.setting] at hsink ⊢
      rw [hsink]
    · rw [Books.hand]
      refine congrArg (update b i) (Row.ext ?_ ?_ ?_ hnoted)
      all_goals rw [← hrow']; rfl
  · rintro _ _ ⟨-, rfl⟩
    split
    · next heq => exact Does.pure ⟨heq.symm, rfl⟩
    · next heq => exact Does.throw ⟨heq.symm, rfl⟩
  · rintro _ _ ⟨⟨⟩, _⟩

/-- What comes of a payload at the end of a route, if the route has an end. -/
def Delivered (S : Setting n) (b : Books n) (i : Fin n) (legs : List (Leg n)) (payload : Bytes)
    (res : Except TunnelError Bytes) (b' : Books n) : Prop :=
  (∃ l f, legs.getLast? = some l ∧ l.far? = some f ∧
    res = (S.node f.node).answer (b f.node).handed ⟨l.hop.link, S.identity i, payload⟩ ∧
    b' = b.hand f.node ⟨l.hop.link, S.identity i, payload⟩) ∨
  (∃ l, legs.getLast? = some l ∧ l.far? = none) ∧ (∃ e, res = .error e) ∧ b' = b

/-- Deliveries leave sessions, links and tunnels alone. -/
theorem Delivered.kept {payload : Bytes} {res : Except TunnelError Bytes}
    (h : Delivered S b i legs payload res b') (j : Fin n) :
    (b' j).session = (b j).session ∧ (b' j).link = (b j).link ∧ (b' j).slot = (b j).slot := by
  obtain ⟨l, f, -, -, -, rfl⟩ | ⟨-, -, rfl⟩ := h
  · exact ⟨by simp, by simp, by simp⟩
  · exact ⟨rfl, rfl, rfl⟩

/-- The last hop of a route hands a payload to its sink. -/
theorem done_payload (hroute : Route S b i legs) {payload command : Bytes}
    (hcommand : (Message.tunnelData Node.endLink payload).encode = .ok command) :
    Done S V now depth b i legs command (Delivered S b i legs payload) where
  done l f hl hfar := by
    apply does_ofFrame (Message.decode_canonical hcommand (by simp [Message.Blank]))
    simp only [Message.canonical, if_true]
    refine (does_deliver _).mono ?_
    rintro _ _ ⟨rfl, rfl⟩
    exact .inl ⟨l, f, hl, hfar, rfl, rfl⟩
  lost l hl hfar e := .inr ⟨⟨l, hl, hfar⟩, ⟨e, rfl⟩, rfl⟩
  kept res b' hE := by
    have hkept := Delivered.kept hE
    have hroute' : Route S b' i legs := hroute.congr fun j x _ =>
      ⟨by rw [(hkept j).1], by rw [(hkept j).2.1]⟩
    exact hroute'.held

/-! ### Sending and receiving -/

/-- What comes of a payload that an owner sends through a route: if it fits, what the last hop's
answer to it comes to in the layers of the route; else nothing. -/
def Went (S : Setting n) (b : Books n) (i : Fin n) (legs : List (Leg n)) (payload : Bytes)
    (res : Except TunnelError Bytes) (b' : Books n) : Prop :=
  (FitsCell legs.length (8 + payload.length) ∧
    Layered (homeward legs) (Delivered S b i legs payload) res b') ∨
  ¬ FitsCell legs.length (8 + payload.length) ∧ (∃ e, res = .error e) ∧ b' = b

theorem Went.kept {payload : Bytes} {res : Except TunnelError Bytes}
    (h : Went S b i legs payload res b') (j : Fin n) :
    (b' j).session = (b j).session ∧ (b' j).link = (b j).link ∧ (b' j).slot = (b j).slot := by
  obtain ⟨-, hlayered⟩ | ⟨-, -, rfl⟩ := h
  · obtain ⟨_, hdelivered⟩ := hlayered.exists_outcome
    exact hdelivered.kept j
  · exact ⟨rfl, rfl, rfl⟩

/-- A payload that fits is sent through a tunnel that is one route; any other one goes nowhere. -/
theorem does_send (hS : S.Own) (hdepth : 260 ≤ depth) {id : UInt32} {t : Tunnel}
    (hready : (b i).slot id = some (.ready t)) (hlayers : t.layers = relayOrder t.hops)
    (hhops : t.hops = legs.map (·.hop)) (hne : legs ≠ []) (hshort : legs.length ≤ 256)
    (hroute : Route S b i legs) (payload : Bytes) :
    Does S V now depth i b (Node.send id payload) (Went S b i legs payload) := by
  obtain ⟨l, rest, rfl⟩ := List.exists_cons_of_ne_nil hne
  refine (does_tunnel hready).bind ?_ ?_
  · rintro _ b₁ ⟨⟨⟩, heq⟩
    have hfirst : t.first? = some l.hop := by
      rw [Tunnel.first?, hhops]
      rfl
    rw [heq, hlayers, hhops]
    simp only [hfirst]
    cases hcommand : (Message.tunnelData Node.endLink payload).encode with
    | error e =>
      refine does_ofFrame_error rfl (.inr ⟨fun hfits => ?_, ⟨_, rfl⟩, rfl⟩)
      have hfit : 4 + payload.length ≤ maxPayload := by
        have := hfits.2
        omega
      obtain ⟨f, hf⟩ := Message.exists_encode (m := .tunnelData Node.endLink payload) hfit
        (Nat.zero_le _) trivial
      exact ok_ne_error hf hcommand
    | ok command =>
      have hlen := Message.length_of_encode hcommand
      simp only [Message.payloadLength, headerLength] at hlen
      have hlength : command.length = 8 + payload.length := by omega
      apply does_ofFrame rfl
      obtain ⟨d, rfl⟩ : ∃ d, depth = d + 1 + (l :: rest).length :=
        ⟨depth - 1 - (l :: rest).length, by omega⟩
      unfold Went
      rw [← hlength]
      exact does_sendLayered hS hroute (done_payload hroute hcommand)
  · rintro _ _ ⟨⟨⟩, _⟩

/-- A reply that comes back through a tunnel that is one route has its layers taken off. -/
theorem does_receive (hS : S.Own) {id : UInt32} {t : Tunnel}
    (hready : (b i).slot id = some (.ready t)) (hlayers : t.layers = relayOrder t.hops)
    (hhops : t.hops = legs.map (·.hop)) (hheld : ∀ l ∈ legs, Held S b i l) {blob reply : Bytes}
    (hblob : Peels (homeward legs) blob reply) :
    Does S V now (depth + 1) i b (Node.receive id blob) fun res b' => b' = b ∧
      (FitsReply legs.length reply.length ∧ res = .ok reply ∨
        ¬ FitsReply legs.length reply.length ∧ ∃ e, res = .error e) := by
  refine (does_tunnel hready).bind ?_ ?_
  · rintro _ b₁ ⟨⟨⟩, heq⟩
    rw [heq, hlayers, hhops]
    exact does_peelReply hS hheld hblob
  · rintro _ _ ⟨⟨⟩, _⟩

end OnionTunnel.Network
