import OnionTunnel.Proofs.Node.Cells

/-!
# What goes through a route

The owner of a route puts on the layers of its hops, the last hop does what the text inside says,
and the owner takes the layers off what comes back. A text gets through exactly if it fits a cell
with its layers, and a reply exactly if it fits a request to take them off.
-/

namespace OnionTunnel.Network

open Function SessionRegistry Sealed

variable {n : Nat} {S : Setting n} {V : Network n → Prop} {now : Instant} {depth : Nat}
  {i : Fin n} {b : Books n}

/-- A text of a length gets through a route of some hops. -/
def FitsCell (hops length : Nat) : Prop :=
  hops ≤ 255 ∧ 4 + 4 + (length + overhead * hops) ≤ maxPayload

/-- A reply of a length gets back through a route of some hops. -/
def FitsReply (hops length : Nat) : Prop :=
  hops ≤ 255 ∧ 4 + 4 * hops + (length + overhead * hops) ≤ maxPayload

/-- A line of hops that an owner reaches through the first one. -/
structure Route (S : Setting n) (b : Books n) (i : Fin n) (legs : List (Leg n)) : Prop where
  linked : Linked S b (S.identity i) legs
  held : ∀ l ∈ legs, Held S b i l
  first : ∀ l, legs.head? = some l → l.dialled = l.hop.address

/-- A statement about what comes of a text that is done at the last hop of a route. It keeps the
sessions of the route, and holds of any failure if there is no last hop. -/
structure Done (S : Setting n) (V : Network n → Prop) (now : Instant) (depth : Nat) (b : Books n)
    (i : Fin n) (legs : List (Leg n)) (command : Bytes)
    (E : Except TunnelError Bytes → Books n → Prop) : Prop where
  done : ∀ l f, legs.getLast? = some l → l.far? = some f →
    Does S V now depth f.node b (Node.execute l.hop.link (S.identity i) command) E
  lost : ∀ l, legs.getLast? = some l → l.far? = none → ∀ e, E (.error e) b
  kept : ∀ res b', E res b' → ∀ l ∈ legs, Held S b' i l

section Routes
variable {legs : List (Leg n)}

theorem Route.near (h : Route S b i legs) : ∀ l ∈ legs, NearHeld b i l :=
  fun l hl => (h.held l hl).near

theorem sessions_of_held (h : ∀ l ∈ legs, NearHeld b i l) :
    (relayOrder (legs.map (·.hop))).map (b i).session = (legs.map (·.near)).reverse.map some := by
  rw [relayOrder, List.map_reverse, List.map_reverse, List.map_map, List.map_map, List.map_map]
  refine congrArg List.reverse (List.map_congr_left fun l hl => ?_)
  exact (h l hl).started

theorem usable_of_held (h : ∀ l ∈ legs, NearHeld b i l) :
    ∀ x ∈ (legs.map (·.near)).reverse, x.Usable := by
  intro x hx
  obtain ⟨l, hl, rfl⟩ := List.mem_map.1 (List.mem_reverse.1 hx)
  exact (h l hl).usable

/-- A cell that is too long for a hop to have its layer taken off goes nowhere. -/
theorem does_sendCell_long (hS : S.Own) {l : Leg n} {rest : List (Leg n)}
    (hroute : Route S b i (l :: rest)) {cell : Bytes} (hlong : ¬ 4 + 4 + cell.length ≤ maxPayload) :
    Does S V now (depth + 2) i b (Node.sendCell l.dialled l.hop.link cell) fun res b' =>
      (∃ e, res = .error e) ∧ b' = b := by
  have hreached := hroute.linked.1
  unfold Reached at hreached
  cases hfar : l.far? with
  | none =>
    simp only [hfar] at hreached
    obtain ⟨-, j, hdest⟩ := hreached
    exact does_sendCell_sessions hdest _ cell
  | some f =>
    simp only [hfar] at hreached
    have hf := (hroute.held l (by simp)).far f hfar
    exact does_sendCell_refused hS hreached.1 hreached.2 hf.accepted hf.usable
      fun hfits => (hlong hfits).elim

/-- A text that fits is done at the last hop; one that does not fit goes nowhere. -/
theorem does_sendLayered (hS : S.Own) {l : Leg n} {rest : List (Leg n)}
    (hroute : Route S b i (l :: rest)) {command : Bytes}
    {E : Except TunnelError Bytes → Books n → Prop}
    (hdone : Done S V now (depth + 1) b i (l :: rest) command E) :
    Does S V now (depth + 1 + (l :: rest).length) i b
      (Node.encryptLayers (relayOrder ((l :: rest).map (·.hop))) command >>=
        Node.sendCell l.hop.address l.hop.link)
      fun res b' =>
        (FitsCell (l :: rest).length command.length ∧ Layered (homeward (l :: rest)) E res b') ∨
        ¬ FitsCell (l :: rest).length command.length ∧ (∃ e, res = .error e) ∧ b' = b := by
  have hcount : ((l :: rest).map (·.near)).reverse.length = (l :: rest).length := by simp
  have hkeys : (((l :: rest).map (·.near)).reverse.map Session.outward).reverse =
      onward (l :: rest) := by
    rw [List.map_reverse, List.reverse_reverse, List.map_map]
    rfl
  have hdepth : depth + 1 + (l :: rest).length = depth + rest.length + 2 := by
    rw [List.length_cons]
    omega
  rw [hdepth]
  refine (does_encryptLayers hS (sessions_of_held hroute.near) (usable_of_held hroute.near)
    command).bind ?_ ?_
  · rintro cell _ ⟨⟨_, ⟨⟩, hpeels, hlen, hlayers, hfit⟩ | ⟨⟨_, ⟨⟩⟩, _⟩, rfl⟩
    rw [hkeys] at hpeels
    rw [hcount] at hlen hlayers
    rw [← hroute.first l rfl]
    by_cases hcell : 4 + 4 + cell.length ≤ maxPayload
    · rw [← hdepth]
      refine (does_sendCell_route hS hroute.linked (fun l' hl' => (hroute.held l' hl').far) hpeels
        hcell hdone.done hdone.lost ?_).mono fun _ _ h => .inl ⟨⟨hlayers, hlen ▸ hcell⟩, h⟩
      intro l' hl' f hf res b' hE
      exact ((hdone.kept res b' hE l' hl').far f hf).accepted
    · exact (does_sendCell_long hS hroute hcell).mono
        fun _ _ h => .inr ⟨fun hfits => hcell (hlen ▸ hfits.2), h⟩
  · rintro e _ ⟨⟨_, ⟨⟩, _⟩ | ⟨-, hlong⟩, rfl⟩
    refine .inr ⟨?_, ⟨e, rfl⟩, rfl⟩
    rintro ⟨hlayers, hfit⟩
    refine hlong ⟨by omega, ?_⟩
    rw [hcount]
    simp only [layerReplyHeader]
    omega

/-- A reply that fits has the layers of the route taken off. -/
theorem does_peelReply (hS : S.Own) (hheld : ∀ l ∈ legs, Held S b i l) {blob reply : Bytes}
    (hblob : Peels (homeward legs) blob reply) :
    Does S V now (depth + 1) i b (Node.decryptLayers (relayOrder (legs.map (·.hop))) blob)
      fun res b' => b' = b ∧ (FitsReply legs.length reply.length ∧ res = .ok reply ∨
        ¬ FitsReply legs.length reply.length ∧ ∃ e, res = .error e) := by
  have hcount : (legs.map (·.near)).reverse.length = legs.length := by simp
  have hkeys : ((legs.map (·.near)).reverse.map Session.inward).reverse = homeward legs := by
    rw [List.map_reverse, List.reverse_reverse, List.map_map]
    rfl
  have hlen : blob.length = reply.length + overhead * legs.length := by
    simpa [homeward] using hblob.length_eq
  have hnear : ∀ l ∈ legs, NearHeld b i l := fun l hl => (hheld l hl).near
  refine (does_decryptLayers hS (sessions_of_held hnear) (usable_of_held hnear) blob).mono ?_
  rintro res _ ⟨⟨text, rfl, htext, hlayers, hfit⟩ | ⟨herror, hlong⟩, rfl⟩
  · rw [hkeys] at htext
    obtain rfl := hblob.unique htext
    rw [hcount] at hlayers hfit
    exact ⟨rfl, .inl ⟨⟨hlayers, hlen ▸ hfit⟩, rfl⟩⟩
  · refine ⟨rfl, .inr ⟨fun hfits => hlong ?_, herror⟩⟩
    rw [hkeys, hcount, hlen]
    exact ⟨⟨reply, hblob⟩, hfits⟩

/-- What the owner gets of a text that it has done at the end of a route. -/
def Relayed (legs : List (Leg n)) (b : Books n) (command : Bytes)
    (E : Except TunnelError Bytes → Books n → Prop) (res : Except TunnelError Bytes)
    (b' : Books n) : Prop :=
  (FitsCell legs.length command.length ∧ ((∃ reply, res = .ok reply ∧ E (.ok reply) b') ∨
    (∃ e, res = .error e) ∧ ((∃ e, E (.error e) b') ∨
      ∃ reply, E (.ok reply) b' ∧ ¬ FitsReply legs.length reply.length))) ∨
  ¬ FitsCell legs.length command.length ∧ (∃ e, res = .error e) ∧ b' = b

/-- A text that fits is done at the last hop of a route, and a reply that fits gets back. -/
theorem does_relay (hS : S.Own) {l : Leg n} {rest : List (Leg n)}
    (hroute : Route S b i (l :: rest)) {command : Bytes}
    {E : Except TunnelError Bytes → Books n → Prop}
    (hdone : Done S V now (depth + 1) b i (l :: rest) command E) :
    Does S V now (depth + 1 + (l :: rest).length) i b
      (Node.relay ((l :: rest).map (·.hop)) command) (Relayed (l :: rest) b command E) := by
  have hrelay : Node.relay ((l :: rest).map (·.hop)) command =
      (Node.encryptLayers (relayOrder ((l :: rest).map (·.hop))) command >>=
        Node.sendCell l.hop.address l.hop.link) >>=
      Node.decryptLayers (relayOrder ((l :: rest).map (·.hop))) := by
    rw [bind_assoc]
    rfl
  rw [hrelay]
  refine (does_sendLayered hS hroute hdone).bind ?_ ?_
  · rintro blob b' (⟨hfits, ⟨reply, _, ⟨⟩, hE, hblob, -⟩ | ⟨⟨_, ⟨⟩⟩, -⟩⟩ | ⟨-, ⟨_, ⟨⟩⟩, -⟩)
    refine (does_peelReply hS (hdone.kept _ _ hE) hblob).mono ?_
    rintro _ _ ⟨rfl, ⟨-, rfl⟩ | ⟨hlong, herror⟩⟩
    · exact .inl ⟨hfits, .inl ⟨reply, rfl, hE⟩⟩
    · exact .inl ⟨hfits, .inr ⟨herror, .inr ⟨reply, hE, hlong⟩⟩⟩
  · rintro e b' (⟨hfits, ⟨_, _, ⟨⟩, _⟩ | ⟨-, hE | ⟨reply, hE, hlong⟩⟩⟩ | ⟨hlong, -, rfl⟩)
    · exact .inl ⟨hfits, .inr ⟨⟨e, rfl⟩, .inl hE⟩⟩
    · refine .inl ⟨hfits, .inr ⟨⟨e, rfl⟩, .inr ⟨reply, hE, fun hback => ?_⟩⟩⟩
      have hreply := hback.2
      simp only [homeward, List.length_map, layerReplyHeader] at hlong
      omega
    · exact .inr ⟨hlong, ⟨e, rfl⟩, rfl⟩

end Routes

end OnionTunnel.Network
