import OnionTunnel.Proofs.Network.Loopback
import OnionTunnel.Proofs.Network.Notices
import OnionTunnel.Proofs.Node.FailedCells

/-!
# Messages to hops come to an end

Two measures bound what a message to a hop leads to. A cell that goes on is one layer shorter than it
came. A notice that goes on leaves one link less behind.

## Implementation notes

The command that a cell turns out to be is known only after all layers are off, so what is assumed of
commands is said of every text that keys of the network's sessions take out of the cell.
-/

namespace OnionTunnel.Network

open Function SessionRegistry Sealed

variable {n : Nat} {S : Setting n} {now : Instant} {depth : Nat} {i : Fin n} {b b' b'' : Books n}
  {t t' : List (Posted n)} {id : UInt32}

/-! ### Cells -/

/-- A reply that travels as it is comes back as it was given. -/
theorem ofReply_of_plain {reply : Message} (hplain : reply.isPlain = true)
    (hfit : reply.payloadLength ≤ maxPayload) :
    Outcome.ofReply (some reply) = .ok (some reply.canonical) := by
  rw [Outcome.ofReply, Message.transmit_of_plain hplain hfit]
  rfl

/-- A hop's own Auth takes the layer off, or declines, or does not answer. -/
theorem tries_askDecrypt (hS : S.Own) (number : UInt16) (id : UInt32) (data : Bytes) :
    Tries S now (depth + 1) i b (Node.askSessions (.layerDecrypt number [id] data))
      fun t res b' => b' = b ∧ cells t = [] ∧ told t = [] ∧
        ((∃ x text, (b i).session id = some x ∧ Peels [x.inward] data text ∧
            res = .ok (.layerDecrypted number text) ∧ peels t = 1) ∨
          (res = .ok .sessionDeclined ∨ ∃ e, res = .error e) ∧ peels t = 0) := by
  refine (tries_askSessions hS (.layerDecrypt number [id] data) (P := fun reply v =>
    ((∃ x text, (b i).session id = some x ∧ Peels [x.inward] data text ∧
      reply = some (.layerDecrypted number text) ∧
      text.length + layerReplyHeader ≤ maxPayload) ∨ reply = some .sessionDeclined) ∧
    v = (b i).session) ?_).mono ?_
  · rintro net rfl rfl
    refine ((answers_layerDecrypt_one number id data : Answers _ _ now _ _)
      (net.node i).registry rfl rfl).mono ?_
    rintro reply v ⟨⟨x, text, hx, -, hpeels, hreply⟩ | ⟨hreply, -⟩, hv⟩
    · exact ⟨.inl ⟨x, text, hx, hpeels, hreply⟩, hv⟩
    · exact ⟨.inr hreply, hv⟩
  · rintro _ _ b' ⟨p, rfl, hmessage, rfl, hcome⟩
    have hcells : cells [p] = [] := by simp [cells, Posted.cell?, hmessage]
    have htold : told [p] = [] := by simp [told, Posted.told?, hmessage]
    obtain ⟨⟨e, houtcome⟩, rfl⟩ | ⟨_, v, ⟨hreply, rfl⟩, rfl, houtcome⟩ := hcome
    · refine ⟨rfl, hcells, htold, .inr ⟨.inr ⟨_, by rw [houtcome]; rfl⟩, ?_⟩⟩
      simp [peels, Posted.peels, hmessage, houtcome]
    · refine ⟨Books.withSessions_self b i, hcells, htold, ?_⟩
      obtain ⟨x, text, hx, hpeels, rfl, hfit⟩ | rfl := hreply
      · rw [ofReply_of_plain rfl (Nat.le_trans (Nat.le_of_eq (Nat.add_comm 4 _)) hfit)] at houtcome
        refine .inl ⟨x, text, hx, hpeels, by rw [houtcome]; rfl, ?_⟩
        simp [peels, Posted.peels, hmessage, houtcome, Message.canonical]
      · rw [ofReply_of_plain rfl (by decide)] at houtcome
        refine .inr ⟨.inl (by rw [houtcome]; rfl), ?_⟩
        simp [peels, Posted.peels, hmessage, houtcome, Message.canonical]

/-- The hop's layer comes off, or nothing does. -/
theorem tries_decryptLayer (hS : S.Own) (id : UInt32) (data : Bytes) :
    Tries S now (depth + 1) i b (Node.decryptLayers [id] data) fun t res b' =>
      b' = b ∧ cells t = [] ∧ told t = [] ∧
        ((∃ x text, (b i).session id = some x ∧ Peels [x.inward] data text ∧ res = .ok text ∧
            peels t = 1) ∨
          (∃ e, res = .error e) ∧ peels t = 0) := by
  refine tries_numbered fun number => ?_
  refine (tries_askDecrypt hS number id data).bind ?_ ?_
  · rintro t _ b₁ ⟨rfl, hcells, htold, ⟨x, text, hx, hpeels, ⟨⟩, hone⟩ | ⟨⟨⟨⟩⟩ | ⟨_, ⟨⟩⟩, hnone⟩⟩
    · have hmatching : Node.matching number number text = Pure.pure text := if_pos rfl
      show Tries S now (depth + 1) i _ (Node.matching number number text) _
      rw [hmatching]
      refine Tries.pure ?_
      rw [List.append_nil]
      exact ⟨rfl, hcells, htold, .inl ⟨x, text, hx, hpeels, rfl, hone⟩⟩
    · refine Tries.throw ?_
      rw [List.append_nil]
      exact ⟨rfl, hcells, htold, .inr ⟨⟨_, rfl⟩, hnone⟩⟩
  · rintro t e b₁ ⟨rfl, hcells, htold, ⟨_, _, -, -, ⟨⟩, -⟩ | ⟨-, hnone⟩⟩
    exact ⟨rfl, hcells, htold, .inr ⟨⟨e, rfl⟩, hnone⟩⟩

/-- Whatever command keys of the network's sessions take out of the cell, a link that is extended by
it goes on to where a hop answers, if anything does. -/
def Commanded (S : Setting n) (b : Books n) (data : Bytes) : Prop :=
  ∀ keys text nextHop incoming, (∀ k ∈ keys, ∃ j id x, (b j).session id = some x ∧ x.inward = k) →
    Peels keys data text → Message.decode text = .ok (.tunnelExtend nextHop incoming) →
    S.Plain nextHop

theorem Commanded.peeled {data text : Bytes} (h : Commanded S b data) {x : Session}
    (hx : (b i).session id = some x) (hpeels : Peels [x.inward] data text) :
    Commanded S b text := by
  intro keys text' nextHop incoming hkeys hrest
  refine h (x.inward :: keys) text' nextHop incoming ?_ (hpeels.append hrest)
  rintro k (_ | ⟨_, hk⟩)
  · exact ⟨i, id, x, hx, rfl⟩
  · exact hkeys k hk

/-- A cell of a length has gone on: each time it was a layer shorter. As many layers have come off as
some bytes hold, and few nodes more have been told to drop a link than links are gone. -/
structure Dwindles (S : Setting n) (length bytes : Nat) (b : Books n) (t : List (Posted n))
    (b' : Books n) : Prop where
  cells : (length :: cells t).IsChain fun before after => before = after + overhead
  peels : peels t * overhead ≤ bytes
  told : (told t).length + b'.linkCount ≤ b.linkCount + 2
  onward : Onward S b'

theorem Settles.dwindles (h : Settles S 2 b t b') (length bytes : Nat) :
    Dwindles S length bytes b t b' where
  cells := by
    rw [h.cells]
    exact .singleton _
  peels := by
    rw [h.peels, Nat.zero_mul]
    exact Nat.zero_le _
  told := h.told
  onward := h.onward

theorem Dwindles.settles {length bytes : Nat} (h : Dwindles S length bytes b t b')
    (h' : Settles S 0 b' t' b'') : Dwindles S length bytes b (t ++ t') b'' where
  cells := by
    rw [cells_append, h'.cells, List.append_nil]
    exact h.cells
  peels := by
    rw [peels_append, h'.peels]
    exact h.peels
  told := by
    have hfirst := h.told
    have hrest := h'.told
    rw [told_append, List.length_append]
    omega
  onward := h'.onward

/-- A layer that comes off first takes its bytes with it. -/
theorem Dwindles.peeled {length bytes : Nat} (h : Dwindles S length bytes b t' b')
    (hcells : Network.cells t = []) (htold : Network.told t = []) (hpeels : Network.peels t = 1) :
    Dwindles S length (bytes + overhead) b (t ++ t') b' where
  cells := by
    rw [cells_append, hcells]
    exact h.cells
  peels := by
    rw [peels_append, hpeels, Nat.add_mul, Nat.one_mul, Nat.add_comm]
    exact Nat.add_le_add_right h.peels _
  told := by
    rw [told_append, htold]
    exact h.told
  onward := h.onward

/-- A cell that has gone on comes first. -/
theorem Dwindles.cons {p : Posted n} {link : UInt32} {data : Bytes} {length : Nat}
    (h : Dwindles S data.length data.length b t b') (hp : p.message = .tunnelData link data)
    (hlength : length = data.length + overhead) :
    Dwindles S length data.length b (p :: t) b' where
  cells := by
    have hcells : Network.cells (p :: t) = data.length :: Network.cells t := by
      simp [Network.cells, Posted.cell?, hp]
    rw [hcells]
    exact .cons_cons hlength h.cells
  peels := by
    have hpeels : Network.peels (p :: t) = Network.peels t := by
      simp [Network.peels, Posted.peels, hp]
    rw [hpeels]
    exact h.peels
  told := by
    have htold : Network.told (p :: t) = Network.told t := by
      simp [Network.told, Posted.told?, hp]
    rw [htold]
    exact h.told
  onward := h.onward

/-- Passing a cell on that is a layer shorter than it came. -/
theorem tries_sendCell {dest : Address} (hdest : S.Plain dest) (h : Onward S b) (link : UInt32)
    {length : Nat} {text : Bytes} (hlength : length = text.length + overhead)
    (hcell : ∀ j, Tries S now depth j b (Node.handleCell link text) fun t _ b' =>
      Dwindles S text.length text.length b t b') :
    Tries S now (depth + 1) i b (Node.sendCell dest link text) fun t _ b' =>
      Dwindles S length text.length b t b' := by
  refine Tries.andEnd (Tries.get fun node _ _ => ?_) ?_
  · refine (tries_request (spreads_plain hdest (m := .tunnelData link text)
      (P := fun t _ b' => Dwindles S text.length text.length b t b') fun j => ?_)).mono ?_
    · refine Spreads.bind (hcell j) ?_
      rintro t (e | reply) b' hdwindles
      · exact Spreads.pure (by rwa [List.append_nil])
      · exact Spreads.pure (by rwa [List.append_nil])
    · rintro _ _ b' ⟨_, ⟨p, hmessage, -, hcome⟩, -⟩
      obtain ⟨rfl, -, -, rfl⟩ | ⟨t, _, _, rfl, -, -, hdwindles⟩ := hcome
      · exact (((Settles.nil h).mono (Nat.zero_le 2)).dwindles _ _).cons hmessage hlength
      · exact hdwindles.cons hmessage hlength
  · intro m
    split <;> exact ⟨_, rfl⟩

/-- What comes of a cell goes back in the hop's layer. -/
theorem tries_wrapped (hS : S.Own) (id : UInt32) {x : Node.Action Bytes} {length bytes : Nat}
    (hx : Tries S now (depth + 1) i b x fun t _ b' => Dwindles S length bytes b t b') :
    Tries S now (depth + 1) i b (x >>= Node.encryptLayers [id]) fun t _ b' =>
      Dwindles S length bytes b t b' := by
  refine hx.bind ?_ fun _ _ _ hdwindles => hdwindles
  intro t reply b' hdwindles
  refine (tries_encryptLayer hS hdwindles.onward id reply).mono ?_
  exact fun _ _ _ hsettles => hdwindles.settles hsettles

/-- A hop passes a cell on or does what it says, once its own layer is off. -/
theorem tries_handleCell (hS : S.Own) (h : Onward S b) (id : UInt32) {data : Bytes}
    (hcommands : Commanded S b data) (hdepth : data.length / overhead + b.linkCount + 2 ≤ depth) :
    Tries S now depth i b (Node.handleCell id data) fun t _ b' =>
      Dwindles S data.length data.length b t b' := by
  have hoverhead : overhead = 48 := rfl
  rw [hoverhead] at hdepth
  -- Along the links: the cell that goes on has its own layers to lose, and the books are the same.
  induction depth generalizing i id data with
  | zero => omega
  | succ depth ih =>
      refine Tries.get fun node _ hrow => ?_
      obtain hget | ⟨link, hget⟩ := Option.eq_none_or_eq_some (node.links.get? id)
      · simp only [hget]
        exact Tries.throw (((Settles.nil h).mono (Nat.zero_le 2)).dwindles _ _)
      · have hlink : (b i).link id = some link := by
          rw [← hrow]
          exact hget
        simp only [hget]
        refine (tries_decryptLayer hS id data).bind ?_ ?_
        · rintro t text b₁ ⟨rfl, hcells, htold, ⟨x, _, hx, hpeels, ⟨⟩, hone⟩ | ⟨⟨_, ⟨⟩⟩, -⟩⟩
          have hlength := hpeels.length_eq
          rw [List.length_singleton, Nat.mul_one] at hlength
          have hinner := hcommands.peeled hx hpeels
          have hpeeled : ∀ t' (res : Except TunnelError Bytes) b',
              Dwindles S data.length text.length b₁ t' b' →
              Dwindles S data.length data.length b₁ (t ++ t') b' := by
            intro t' _ b' hdwindles
            have hwhole := hdwindles.peeled hcells htold hone
            rwa [← hlength] at hwhole
          cases hdown : link.downstream? with
          | none =>
            refine (tries_wrapped hS id ((tries_execute hS h id link.peer (fun nextHop incoming =>
              hinner [] text nextHop incoming (List.forall_mem_nil _) rfl) (by omega)).mono ?_)).mono
              hpeeled
            exact fun t' _ b' hsettles => hsettles.dwindles _ _
          | some next =>
            refine (tries_wrapped hS id (tries_sendCell (h i id link next hlink hdown) h next.link
              hlength fun j => ?_)).mono hpeeled
            exact ih next.link hinner (by omega)
        · rintro t e _ ⟨rfl, hcells, htold, ⟨_, _, -, -, ⟨⟩, -⟩ | ⟨-, hnone⟩⟩
          exact ((Settles.mk hnone hcells (by rw [htold]; simp) h).mono (Nat.zero_le 2)).dwindles _ _

/-! ### Messages -/

/-- What a message leads to, as its length and the links allow: each cell that goes on is a layer
shorter than the one before, no more layers come off than fit the length, and few nodes more than
links are gone are told to drop a link; a notice has that told to none but for a link that is gone. -/
def Bounded (b : Books n) (m : Message) (t : List (Posted n)) (b' : Books n) : Prop :=
  (∀ link data, m = .tunnelData link data →
    (data.length :: cells t).IsChain (fun before after => before = after + overhead) ∧
      peels t ≤ data.length / overhead ∧ (told t).length + b'.linkCount ≤ b.linkCount + 2) ∧
  ∀ link, m = .tunnelDestroy link → (told t).length + b'.linkCount ≤ b.linkCount

/-- Any message to a hop, followed deep enough. -/
theorem spreads_answerPeers (hS : S.Own) (h : Onward S b) (m : Message)
    (hcommands : ∀ link data, m = .tunnelData link data → Commanded S b data)
    (hdepth : m.payloadLength / overhead + b.linkCount + 2 ≤ depth) :
    Spreads S now depth i b (Node.answerPeers m) fun t _ b' => Bounded b m t b' := by
  have hdepth' := Nat.le_trans (Nat.add_le_add_right (Nat.le_add_left b.linkCount _) 2) hdepth
  obtain ⟨depth, rfl⟩ : ∃ d, depth = d + 1 := ⟨depth - 1, by omega⟩
  unfold Node.answerPeers
  split
  · next hostkey handshake =>
    refine Spreads.bind (tries_acceptHandshake hS h hostkey handshake) ?_
    rintro t (e | ⟨link, returned⟩) b' -
    · exact Spreads.pure ⟨fun _ _ => nofun, fun _ => nofun⟩
    · exact Spreads.pure ⟨fun _ _ => nofun, fun _ => nofun⟩
  · next link data =>
    have hlength : data.length / overhead ≤ (Message.tunnelData link data).payloadLength / overhead :=
      Nat.div_le_div_right (Nat.le_add_left data.length 4)
    refine Spreads.bind (tries_handleCell hS h link (hcommands link data rfl)
      (Nat.le_trans (by omega) hdepth)) ?_
    rintro t res b' hdwindles
    have hbounded : Bounded b (.tunnelData link data) t b' := by
      refine ⟨?_, fun _ => nofun⟩
      rintro _ _ ⟨⟩
      exact ⟨hdwindles.cells, (Nat.le_div_iff_mul_le (by decide)).2 hdwindles.peels,
        hdwindles.told⟩
    cases res with
    | error e => exact Spreads.pure (by rwa [List.append_nil])
    | ok reply => exact Spreads.pure (by rwa [List.append_nil])
  · next link =>
    refine (spreads_handleDestroy hS h link (by omega)).bind ?_
    rintro t _ b' hsettles
    refine Spreads.pure ⟨fun _ _ => nofun, fun _ _ => ?_⟩
    rw [List.append_nil]
    exact hsettles.told
  · next hhandshake hcell hnotice =>
    exact Spreads.pure ⟨fun link data hm => (hcell link data hm).elim,
      fun link hm => (hnotice link hm).elim⟩

/-- Any message to a hop comes to an end, whatever the links are, and circles are no exception: how
deep it is followed makes no difference beyond a depth, and the network follows what has arrived as a
frame deeper than that. A cell that goes on is each time one layer shorter, so no more layers come
off than fit its length. A notice gets to no more nodes than one for each link that is dropped, and
a last one. It is assumed that links and commands to extend lead to hops, or to where nobody
answers. -/
theorem answerPeers_ends {net : Network n} (hown : net.setting.Own)
    (honward : Onward net.setting net.books) {m : Message} (hcommands : ∀ link data,
      m = .tunnelData link data → Commanded net.setting net.books data) (now : Instant) (j : Fin n) :
    ∃ t reply net',
      (∀ depth, m.payloadLength / overhead + net.linkCount + 2 ≤ depth →
        Cascade now depth j (Node.answer .peers m) net t reply net') ∧
      (m.framed = true → (act j (Node.answer .peers m)).Ends now net reply net') ∧
      (∀ link data, m = .tunnelData link data →
        (data.length :: cells t).IsChain (fun before after => before = after + overhead) ∧
          peels t ≤ data.length / overhead ∧
          (told t).length + net'.linkCount ≤ net.linkCount + 2) ∧
      ∀ link, m = .tunnelDestroy link →
        (j :: told t).length + net'.linkCount ≤ net.linkCount + 1 := by
  obtain ⟨t, reply, net', hcascade, -, hcells, htold⟩ :=
    (spreads_answerPeers hown honward m hcommands (Nat.le_refl _) : Spreads _ now _ j _ _ _)
      net rfl rfl
  rw [linkCount_books] at hcascade htold hcells
  rw [linkCount_books] at htold hcells
  refine ⟨t, reply, net', fun depth hdepth => hcascade.mono hdepth, fun hframed => ?_, hcells,
    fun link hm => ?_⟩
  · refine .read (hcascade.mono ?_).ends
    obtain ⟨f, hf, -⟩ := Message.framed_iff.1 hframed
    have hfits := (Message.fits_of_encode hf).1
    have hoverhead : overhead = 48 := rfl
    simp only [maxPayload, maxFrame, headerLength] at hfits
    rw [depth_eq, maxFrame, hoverhead]
    omega
  · have hlinks := htold link hm
    rw [List.length_cons]
    omega

/-- A node whose only link goes on to itself. -/
def circle : Network 1 :=
  .ofNodes ⟨#[{ loopNode with
    links := Table.insert .empty 5 ⟨.ofHostkey [], some ⟨loopHop.address, 5⟩⟩ }], rfl⟩ loopAddress

theorem own_circle : circle.setting.Own :=
  (honest_ofNodes apart_loopAddress fun j => by
    rw [Subsingleton.elim j 0]
    rfl).own

theorem onward_circle : Onward circle.setting circle.books := by
  intro j id link next hlink hnext
  have hget : (Table.insert .empty 5 ⟨.ofHostkey [], some ⟨loopHop.address, 5⟩⟩ :
      LinkTable).get? id = some link := by
    rw [← hlink]
    show _ = (circle.node j).links.get? id
    rw [circle, node_ofNodes apart_loopAddress, Subsingleton.elim j 0]
    rfl
  rw [Table.get?_insert, update_apply] at hget
  split at hget
  · obtain rfl := Option.some.inj hget
    obtain rfl := Option.some.inj hnext
    intro e he
    have hpeers := Setting.endpoint_of_serviceAt? (serviceAt?_ofNodes apart_loopAddress
      ⟨#[{ loopNode with
        links := Table.insert .empty 5 ⟨.ofHostkey [], some ⟨loopHop.address, 5⟩⟩ }], rfl⟩ 0
      .peers)
    exact ⟨0, Option.some.inj (he.symm.trans hpeers)⟩
  · cases hget

/-- A notice and a cell on a link that goes round in a circle. -/
theorem answerPeers_ends_circle :
    (∃ t reply net',
      (∀ depth, (Message.tunnelDestroy 5).payloadLength / overhead + circle.linkCount + 2 ≤ depth →
        Cascade 0 depth 0 (Node.answer .peers (.tunnelDestroy 5)) circle t reply net') ∧
      (act 0 (Node.answer .peers (.tunnelDestroy 5))).Ends 0 circle reply net' ∧
      ((0 : Fin 1) :: told t).length + net'.linkCount ≤ circle.linkCount + 1) ∧
    ∃ t reply net',
      (∀ depth, (Message.tunnelData 5 [1, 2, 3]).payloadLength / overhead + circle.linkCount + 2 ≤
        depth →
        Cascade 0 depth 0 (Node.answer .peers (.tunnelData 5 [1, 2, 3])) circle t reply net') ∧
      (act 0 (Node.answer .peers (.tunnelData 5 [1, 2, 3]))).Ends 0 circle reply net' ∧
      (3 :: cells t).IsChain (fun before after => before = after + overhead) ∧
      peels t ≤ 3 / overhead ∧ (told t).length + net'.linkCount ≤ circle.linkCount + 2 := by
  constructor
  · obtain ⟨t, reply, net', hcascade, hends, -, htold⟩ := answerPeers_ends own_circle onward_circle
      (m := .tunnelDestroy 5) (fun _ _ => nofun) 0 0
    exact ⟨t, reply, net', hcascade, hends (by decide), htold 5 rfl⟩
  · have hcommands : Commanded circle.setting circle.books [1, 2, 3] := by
      rintro (_ | ⟨k, keys⟩) text nextHop incoming hheld hpeels hextend
      · obtain rfl := hpeels
        have hnone : ∀ nextHop incoming,
            Message.decode [1, 2, 3] ≠ .ok (.tunnelExtend nextHop incoming) := nofun
        exact (hnone nextHop incoming hextend).elim
      · obtain ⟨j, id, x, hx, -⟩ := hheld k List.mem_cons_self
        have hnone : (circle.books j).session id = none := by
          show (circle.node j).registry.holdings id = none
          rw [circle, node_ofNodes apart_loopAddress, Subsingleton.elim j 0]
          rfl
        cases hnone.symm.trans hx
    obtain ⟨t, reply, net', hcascade, hends, hcells, -⟩ := answerPeers_ends own_circle onward_circle
      (m := .tunnelData 5 [1, 2, 3]) (by rintro _ _ ⟨⟩; exact hcommands) 0 0
    exact ⟨t, reply, net', hcascade, hends (by decide), hcells 5 _ rfl⟩

end OnionTunnel.Network
