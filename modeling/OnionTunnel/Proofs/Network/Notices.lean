import OnionTunnel.Proofs.Network.Cascades
import OnionTunnel.Proofs.Network.LinkCount
import OnionTunnel.Proofs.Node.Payloads

/-!
# Notices come to an end

The links of the hops may go on to anywhere, in circles too, and nobody remembers where a notice has
been. But a hop that passes a notice on has dropped a link, so the circle that a notice goes round
opens behind it. `Settles` says what is left of the links by all that a program leads to, and holds of
whatever a hop does but for the cells that it passes on.
-/

namespace OnionTunnel.Network

open Function SessionRegistry Sealed

variable {n : Nat}

/-! ### What is sent on the way -/

/-- A layer has come off. -/
def Posted.peels (p : Posted n) : Bool :=
  match p.message, p.outcome with
  | .layerDecrypt .., .ok (some (.layerDecrypted ..)) => true
  | _, _ => false

/-- The length of the cell, if it is one. -/
def Posted.cell? (p : Posted n) : Option Nat :=
  match p.message with
  | .tunnelData _ data => some data.length
  | _ => none

/-- The node that has been told to drop a link, if it has. -/
def Posted.told? (p : Posted n) : Option (Fin n) :=
  match p.message, p.reached? with
  | .tunnelDestroy _, some s => some s.owner
  | _, _ => none

/-- How many layers have come off. -/
def peels (t : List (Posted n)) : Nat := t.countP Posted.peels

/-- The lengths of the cells that have gone on. -/
def cells (t : List (Posted n)) : List Nat := t.filterMap Posted.cell?

/-- The nodes that have been told to drop a link. -/
def told (t : List (Posted n)) : List (Fin n) := t.filterMap Posted.told?

@[simp] theorem peels_append (t t' : List (Posted n)) : peels (t ++ t') = peels t + peels t' :=
  List.countP_append

@[simp] theorem cells_append (t t' : List (Posted n)) : cells (t ++ t') = cells t ++ cells t' :=
  List.filterMap_append

@[simp] theorem told_append (t t' : List (Posted n)) : told (t ++ t') = told t ++ told t' :=
  List.filterMap_append

/-- The message asks for no layer to come off and is neither a cell nor a notice. -/
def isStill : Message → Bool
  | .layerDecrypt .. | .tunnelData .. | .tunnelDestroy _ => false
  | _ => true

theorem Posted.still {p : Posted n} (h : isStill p.message = true) :
    p.peels = false ∧ p.cell? = none ∧ p.told? = none := by
  obtain ⟨⟨dest, m, o⟩, s?⟩ := p
  cases m <;> first | exact ⟨rfl, rfl, rfl⟩ | cases h

variable {S : Setting n} {now : Instant} {depth k k' : Nat} {i : Fin n} {b b' b'' : Books n}
  {t t' : List (Posted n)} {id : UInt32}

/-- Every link that goes on leads to a hop, or to where nobody answers. -/
def Onward (S : Setting n) (b : Books n) : Prop :=
  ∀ j id link next, (b j).link id = some link → link.downstream? = some next →
    S.Plain next.address

/-- A change that leaves the links of a node alone. -/
theorem Onward.update (h : Onward S b) {r : Row} (hr : r.link = (b i).link) :
    Onward S (update b i r) := by
  intro j id link next hlink
  refine h j id link next ?_
  rw [← hlink, update_apply]
  split
  · next hj => rw [hj, hr]
  · rfl

theorem Onward.setLink (h : Onward S b) (i : Fin n) (id : UInt32) {l? : Option Link}
    (hl : ∀ link next, l? = some link → link.downstream? = some next → S.Plain next.address) :
    Onward S (b.setLink i id l?) := by
  intro j id' link next hlink
  simp only [Books.setLink_apply] at hlink
  split at hlink
  · exact hl link next hlink
  · exact h j id' link next hlink

/-- No layer has come off on the way and no cell has gone on. As many nodes have been told to drop a
link as links are gone, or a few more. -/
structure Settles (S : Setting n) (spare : Nat) (b : Books n) (t : List (Posted n)) (b' : Books n) :
    Prop where
  peels : peels t = 0
  cells : cells t = []
  told : (told t).length + b'.linkCount ≤ b.linkCount + spare
  onward : Onward S b'

theorem Settles.nil (h : Onward S b) : Settles S 0 b [] b :=
  ⟨rfl, rfl, Nat.le_of_eq (Nat.zero_add _), h⟩

/-- A change that leaves the links of a node alone. -/
theorem Settles.update (h : Onward S b) {r : Row} (hr : r.link = (b i).link) :
    Settles S 0 b [] (update b i r) := by
  refine { Settles.nil h with told := ?_, onward := h.update hr }
  rw [Books.linkCount_update_of_link_eq hr]
  exact Nat.le_of_eq (Nat.zero_add _)

theorem Settles.append (h : Settles S k b t b') (h' : Settles S k' b' t' b'') :
    Settles S (k + k') b (t ++ t') b'' where
  peels := by rw [peels_append, h.peels, h'.peels]
  cells := by rw [cells_append, h.cells, h'.cells, List.append_nil]
  told := by
    have hfirst := h.told
    have hrest := h'.told
    rw [told_append, List.length_append]
    omega
  onward := h'.onward

theorem Settles.mono (h : Settles S k b t b') (hk : k ≤ k') : Settles S k' b t b' :=
  { h with told := Nat.le_trans h.told (Nat.add_le_add_left hk _) }

/-- A link that has been dropped makes up for one more notice. -/
theorem Settles.erased (hlink : (b i).link id ≠ none)
    (h : Settles S (k + 1) (b.setLink i id none) t b') : Settles S k b t b' := by
  have hcount := Books.linkCount_setLink_none hlink
  have htold := h.told
  exact { h with told := by omega }

/-- A message that is neither a cell nor a notice. -/
theorem Settles.single (h : Onward S b) {p : Posted n} (hp : isStill p.message = true) :
    Settles S 0 b [p] b := by
  obtain ⟨hpeels, hcell, htold⟩ := Posted.still hp
  refine ⟨?_, ?_, ?_, h⟩
  · simp [Network.peels, hpeels]
  · simp [Network.cells, hcell]
  · simp [Network.told, htold]

/-! ### Own sessions -/

/-- A session request that takes no layer off. -/
theorem tries_askSessions_still (hS : S.Own) (h : Onward S b) {m : Message}
    (hm : isStill m = true) (hset : ∀ r : SessionRegistry,
      (r.handle now m.canonical).2.setting = r.setting) :
    Tries S now (depth + 1) i b (Node.askSessions m) fun t _ b' => Settles S 0 b t b' := by
  refine (tries_askSessions hS m (P := fun _ _ => True) ?_).mono ?_
  · rintro net rfl -
    exact ⟨hset _, trivial⟩
  · rintro t _ b' ⟨p, rfl, rfl, -, ⟨-, rfl⟩ | ⟨_, v, -, rfl, -⟩⟩
    · exact .single h hm
    · exact (Settles.single h hm).append (.update h (by rfl))

/-- Closing a session. -/
theorem spreads_closeSession (hS : S.Own) (h : Onward S b) (id : UInt32) :
    Spreads S now (depth + 1) i b (Node.closeSession id) fun t _ b' => Settles S 0 b t b' := by
  refine (Spreads.quiet (P := fun _ b' => b' = b) (Program.Quiet.modifyGet _) ?_).bind ?_
  · refine Leads.modifyGet fun node hset hrow => ?_
    obtain ⟨hset', hrow'⟩ := Node.updateDirectory_setting (·.forgetSession id) node
    exact ⟨hset'.trans hset, by rw [hrow', hrow, update_eq_self]⟩
  · rintro _ _ _ ⟨rfl, rfl⟩
    refine Spreads.get fun node hset _ => ?_
    have hservice : node.sessionService = (S.node i).sessionService := by
      rw [← hset]
      rfl
    rw [hservice]
    refine (spreads_own hS (.sessionClose id) (P := fun _ _ => True) ?_).bind ?_
    · rintro net rfl -
      exact ⟨((answers_sessionClose id : Answers _ _ now _ _) _ rfl rfl).1, trivial⟩
    · rintro _ _ b' ⟨p, rfl, hmessage, -, hcome⟩
      have hp := Settles.single h (p := p) (by rw [hmessage]; rfl)
      obtain ⟨-, rfl⟩ | ⟨_, v, -, rfl, -⟩ := hcome
      · exact Spreads.pure hp
      · exact Spreads.pure (hp.append (.update h (by rfl)))

/-- Putting a layer on. -/
theorem tries_encryptLayer (hS : S.Own) (h : Onward S b) (id : UInt32) (reply : Bytes) :
    Tries S now (depth + 1) i b (Node.encryptLayers [id] reply) fun t _ b' =>
      Settles S 0 b t b' := by
  refine (tries_numbered fun number => ?_)
  refine (tries_askSessions_still hS h rfl fun r =>
    (handle_layerEncrypt_leaves now number [id] reply r).setting).andEnd ?_
  intro m
  split
  · unfold Node.matching
    split
    · exact ⟨_, rfl⟩
    · exact ⟨_, rfl⟩
  · exact ⟨_, rfl⟩

/-! ### Notices -/

/-- Telling a hop to drop a link. -/
theorem spreads_dropLink {dest : Address} (hdest : S.Plain dest) (h : Onward S b) (link : UInt32)
    (hdestroy : ∀ j, Spreads S now depth j b (Node.handleDestroy link) fun t _ b' =>
      Settles S 0 b t b') :
    Spreads S now (depth + 1) i b (Node.dropLink dest link) fun t _ b' => Settles S 1 b t b' := by
  refine Spreads.get fun node _ _ => ?_
  refine (spreads_plain hdest (m := .tunnelDestroy link)
    (P := fun t _ b' => Settles S 0 b t b') fun j => ?_).bind ?_
  · refine (hdestroy j).bind fun t _ b' hsettles => Spreads.pure ?_
    rwa [List.append_nil]
  · rintro _ _ b' ⟨p, hmessage, -, ⟨rfl, hreached, -, rfl⟩ | ⟨t, j, _, rfl, hreached, -, hsettles⟩⟩
    · refine Spreads.pure ⟨?_, ?_, ?_, h⟩
      all_goals simp [peels, cells, told, Posted.peels, Posted.cell?, Posted.told?, hmessage, hreached]
    · have htold := hsettles.told
      refine Spreads.pure ⟨?_, ?_, ?_, hsettles.onward⟩
      · simpa [peels, Posted.peels, hmessage] using hsettles.peels
      · simpa [cells, Posted.cell?, hmessage] using hsettles.cells
      · simp only [told] at htold
        simp [told, Posted.told?, hmessage, hreached]
        omega

/-- A notice comes to an end once there are no more links, at the latest: each hop that passes it on
has dropped a link. -/
theorem spreads_handleDestroy (hS : S.Own) (h : Onward S b) (link : UInt32)
    (hdepth : b.linkCount ≤ depth) :
    Spreads S now depth i b (Node.handleDestroy link) fun t _ b' => Settles S 0 b t b' := by
  induction depth generalizing i b link with
  | zero =>
      refine Spreads.get fun node _ hrow => ?_
      cases hget : node.links.get? link with
      | none => exact Spreads.pure (.nil h)
      | some l =>
        have hlink : (b i).link link ≠ none := by
          rw [← hrow, show node.row.link link = _ from hget]
          exact Option.some_ne_none l
        have hcount := Books.linkCount_setLink_none hlink
        omega
  | succ depth ih =>
      refine Spreads.get fun node _ hrow => ?_
      cases hget : node.links.get? link with
      | none => exact Spreads.pure (.nil h)
      | some l =>
        have hlink : (b i).link link = some l := by
          rw [← hrow]
          exact hget
        have hheld : (b i).link link ≠ none := by
          rw [hlink]
          exact Option.some_ne_none l
        have hcount := Books.linkCount_setLink_none hheld
        have hleft : Onward S (b.setLink i link none) := h.setLink i link fun _ _ => nofun
        refine (Spreads.quiet (Program.Quiet.modifyGet _) (leads_eraseLink link)).bind ?_
        rintro _ _ _ ⟨rfl, rfl⟩
        refine (spreads_closeSession hS hleft link).bind ?_
        intro t _ b₁ hclosed
        simp only [List.nil_append]
        cases hdown : l.downstream? with
        | none =>
          apply Spreads.pure
          rw [List.append_nil]
          exact .erased hheld (hclosed.mono (Nat.zero_le 1))
        | some next =>
          have htold := hclosed.told
          refine (spreads_dropLink (h i link l next hlink hdown) hclosed.onward next.link
            fun j => ih hclosed.onward next.link (by omega)).mono ?_
          intro t' _ b' hdropped
          exact .erased hheld (hclosed.append hdropped)

/-! ### Handshakes -/

/-- Accepting a handshake. -/
theorem tries_acceptHandshake (hS : S.Own) (h : Onward S b) (hostkey handshake : Bytes) :
    Tries S now (depth + 1) i b (Node.acceptHandshake hostkey handshake) fun t _ b' =>
      Settles S 1 b t b' := by
  refine Tries.bind (P := fun t _ b' => Settles S 0 b t b') ?_ ?_ ?_
  · refine (tries_askSessions_still hS h rfl fun r => ?_).andEnd ?_
    · exact (replies_incomingHandshake1 r hostkey handshake).1
    · intro m
      split <;> exact ⟨_, rfl⟩
  · rintro t ⟨id, returned⟩ b₁ hasked
    refine Tries.bind (Tries.quiet (Node.quiet_lift (Program.Quiet.modifyGet _))
      (does_insertLink id ⟨.ofHostkey hostkey, none⟩ ?_)) ?_ ?_
    · intro node hrow
      rw [← hrow]
      exact Table.get?_insert _ _ _
    · rintro _ _ _ ⟨rfl, -, rfl⟩
      refine Tries.bind (Tries.quiet (Node.quiet_lift (Program.Quiet.modifyGet _))
        (does_updateDirectory _)) ?_ ?_
      · rintro _ _ _ ⟨rfl, -, rfl⟩
        have hinserted : (b₁.setLink i id (some ⟨.ofHostkey hostkey, none⟩)).linkCount ≤
            b₁.linkCount + 1 := Books.linkCount_setLink_some _
        have htold := hasked.told
        refine Tries.pure ?_
        simp only [List.append_nil]
        refine { hasked with told := by omega, onward := hasked.onward.setLink i id ?_ }
        rintro _ _ ⟨⟩ ⟨⟩
      · rintro _ _ _ ⟨-, ⟨⟩, -⟩
    · rintro _ _ _ ⟨-, ⟨⟩, -⟩
  · exact fun t e b' hasked => hasked.mono (Nat.zero_le 1)

/-- Having a hop accept a handshake. -/
theorem tries_deliverHandshake (hS : S.Own) {dest : Address} (hdest : S.Plain dest)
    (h : Onward S b) (hostkey handshake : Bytes) :
    Tries S now (depth + 2) i b (Node.deliverHandshake dest hostkey handshake) fun t _ b' =>
      Settles S 1 b t b' := by
  refine Tries.andEnd (Tries.get fun node _ _ => ?_) ?_
  · refine (tries_request (spreads_plain hdest (m := .incomingHandshake1 hostkey handshake)
      (P := fun t _ b' => Settles S 1 b t b') fun j => ?_)).mono ?_
    · refine Spreads.bind (tries_acceptHandshake hS h hostkey handshake) ?_
      rintro t (e | ⟨link, returned⟩) b' hsettles
      · exact Spreads.pure (by rwa [List.append_nil])
      · exact Spreads.pure (by rwa [List.append_nil])
    · rintro _ _ b' ⟨_, ⟨p, hmessage, -, hcome⟩, -⟩
      have hp : Settles S 0 b [p] b := .single h (by rw [hmessage]; rfl)
      obtain ⟨rfl, -, -, rfl⟩ | ⟨t, _, _, rfl, -, -, hsettles⟩ := hcome
      · exact hp.mono (Nat.zero_le 1)
      · exact hp.append hsettles
  · intro m
    unfold Node.returnedHandshake
    split <;> exact ⟨_, rfl⟩

/-! ### Commands -/

/-- Having a link go on, or else telling the next hop to drop what it has opened. -/
theorem tries_joinNext (hS : S.Own) (next : Downstream) (hnext : S.Plain next.address)
    (h : Onward S b) (id : UInt32) (hdepth : b.linkCount ≤ depth) :
    Tries S now (depth + 1) i b (Node.joinNext id next) fun t _ b' => Settles S 1 b t b' := by
  have hdropped : ∀ e, Tries S now (depth + 1) i b
      (do Node.dropLink next.address next.link; throw e : Node.Action Unit) fun t _ b' =>
        Settles S 1 b t b' := by
    intro e
    refine Tries.after (spreads_dropLink hnext h next.link fun j =>
      spreads_handleDestroy hS h next.link hdepth) ?_
    intro t _ b' hsettles
    exact Tries.throw (by rwa [List.append_nil])
  refine Tries.get fun node _ hrow => ?_
  obtain hget | ⟨⟨peer, next?⟩, hget⟩ := Option.eq_none_or_eq_some (node.links.get? id)
  · simp only [LinkTable.extend, hget]
    exact hdropped _
  · cases next? with
    | some _ =>
      simp only [LinkTable.extend, hget]
      exact hdropped _
    | none =>
      have hheld : (b i).link id ≠ none := by
        rw [← hrow, show node.row.link id = _ from hget]
        exact Option.some_ne_none _
      simp only [LinkTable.extend, hget]
      refine (Tries.quiet (Node.quiet_lift (Program.Quiet.modifyGet _))
        (does_insertLink id ⟨peer, some next⟩ ?_)).mono ?_
      · rintro _ hrow'
        rw [Table.get?_insert, ← hrow]
        rfl
      · rintro _ _ _ ⟨rfl, -, rfl⟩
        have hcount := Books.linkCount_setLink_held hheld ⟨peer, some next⟩
        refine { Settles.nil h with told := ?_, onward := h.setLink i id ?_ }
        · simp only [told, List.filterMap_nil, List.length_nil]
          omega
        · rintro _ _ ⟨⟩ ⟨⟩
          exact hnext

/-- Extending a link. -/
theorem tries_extendLink (hS : S.Own) {nextHop : Address} (hnext : S.Plain nextHop)
    (h : Onward S b) (id : UInt32) (incoming : Bytes) (hdepth : b.linkCount + 2 ≤ depth) :
    Tries S now depth i b (Node.extendLink id nextHop incoming) fun t _ b' =>
      Settles S 2 b t b' := by
  obtain ⟨depth, rfl⟩ : ∃ d, depth = d + 2 := ⟨depth - 2, by omega⟩
  refine tries_ofFrame ?_ fun _ _ => (Settles.nil h).mono (by omega)
  intro m _
  split
  · next hostkey handshake _ =>
    refine (tries_deliverHandshake hS hnext h hostkey handshake).bind ?_ ?_
    · rintro t ⟨link, returned⟩ b₁ hdelivered
      have htold := hdelivered.told
      refine Tries.bind (P := fun t' _ b' => Settles S 2 b (t ++ t') b') ?_ ?_ ?_
      · refine (tries_joinNext hS ⟨nextHop, link⟩ hnext hdelivered.onward id
          (by omega)).mono ?_
        exact fun t' _ b' hjoined => hdelivered.append hjoined
      · intro t' _ b' hjoined
        cases (Message.sessionHandshake2 link returned).encode with
        | error e => exact Tries.throw (by rwa [List.append_nil])
        | ok f => exact Tries.pure (by rwa [List.append_nil])
      · exact fun _ _ _ hjoined => hjoined
    · exact fun _ _ _ hdelivered => hdelivered.mono (by omega)
  · exact Tries.throw ((Settles.nil h).mono (by omega))

/-- Doing what a command says. -/
theorem tries_execute (hS : S.Own) (h : Onward S b) (id : UInt32) (peer : Identity)
    {command : Bytes} (hcommand : ∀ nextHop incoming,
      Message.decode command = .ok (.tunnelExtend nextHop incoming) → S.Plain nextHop)
    (hdepth : b.linkCount + 2 ≤ depth) :
    Tries S now depth i b (Node.execute id peer command) fun t _ b' => Settles S 2 b t b' := by
  refine tries_ofFrame ?_ fun _ _ => (Settles.nil h).mono (by omega)
  intro m hm
  split
  · next nextHop incoming =>
    exact tries_extendLink hS (hcommand nextHop incoming hm) h id incoming hdepth
  · split
    · refine (Tries.quiet (Node.quiet_deliver _) (does_deliver _)).mono ?_
      rintro _ _ _ ⟨rfl, -, rfl⟩
      exact (Settles.update h (by rfl)).mono (Nat.zero_le 2)
    · exact Tries.throw ((Settles.nil h).mono (by omega))
  · exact Tries.throw ((Settles.nil h).mono (by omega))

end OnionTunnel.Network
