import OnionTunnel.Proofs.Node.Contacts
import OnionTunnel.Proofs.Node.Within

/-!
# Programs that tend links

A hop changes its links by what it has just seen of them, so what it does is followed from the node
that it finds. `Tends` says of a program that a node begins which links it can add, beside what it
may send to whom and what it may end with. Others may change the node while it waits for a message,
and do not in between.
-/

namespace OnionTunnel.Node

variable {α β : Type} {n n' : Node} {a : Address} {D : Address → Message → Prop}
  {N : UInt32 → Identity → Prop} {Q : α → Prop} {R : β → Prop}

/-- A node has been changed beside its sessions. Each link was there with its peer, or may be
added. -/
structure Tended (N : UInt32 → Identity → Prop) (n n' : Node) : Prop where
  service : n'.sessionService = n.sessionService
  sessions : n'.registry.sessions = n.registry.sessions
  links : ∀ id link, n'.links.get? id = some link →
    N id link.peer ∨ ∃ link', n.links.get? id = some link' ∧ link'.peer = link.peer

theorem Tended.refl (N : UInt32 → Identity → Prop) (n : Node) : Tended N n n :=
  ⟨rfl, rfl, fun _ link h => .inr ⟨link, h, rfl⟩⟩

theorem Tended.trans {n'' : Node} (h : Tended N n n') (h' : Tended N n' n'') : Tended N n n'' where
  service := h'.service.trans h.service
  sessions := h'.sessions.trans h.sessions
  links _ link hlink := by
    obtain hnew | ⟨link', hlink', hpeer⟩ := h'.links _ link hlink
    · exact .inl hnew
    · rw [← hpeer]
      exact h.links _ link' hlink'

theorem Beside.tended (h : Beside n n') : Tended N n n' where
  service := h.service
  sessions := h.sessions
  links _ link hlink := .inr ⟨link, h.links ▸ hlink, rfl⟩

/-- A program that a node begins, whose session service is at an address, tends the links, sends
what may be sent, and ends with what it may end with. -/
inductive Tends {α : Type} (a : Address) (D : Address → Message → Prop)
    (N : UInt32 → Identity → Prop) (Q : α → Prop) : Node → Program Node α → Prop
  | done {n : Node} {c : α} (h : Q c) : Tends a D N Q n (.done c)
  | read {n : Node} {k : Instant → Node → Program Node α} (h : ∀ now, Tends a D N Q n (k now n)) :
      Tends a D N Q n (.read k)
  | write {n s : Node} {p : Program Node α} (hs : Tended N n s) (h : Tends a D N Q s p) :
      Tends a D N Q n (.write s p)
  | send {n : Node} {dest : Address} {m : Message} {limit : Option Duration}
      {k : Outcome → Program Node α} (hd : D dest m)
      (h : ∀ o n', n'.sessionService = a → Tends a D N Q n' (k o)) :
      Tends a D N Q n (.send dest m limit k)

/-- An action that a node begins tends the links, sends what may be sent, and ends with what it may
end with if it succeeds. -/
def ActsTending (a : Address) (D : Address → Message → Prop) (N : UInt32 → Identity → Prop)
    (Q : α → Prop) (n : Node) (x : Action α) : Prop :=
  Tends a D N (fun res => ∀ c, res = .ok c → Q c) n x.run

/-! ### Rules -/

/-- A program that leaves links alone tends them. -/
theorem Within.tends {p : Program Node α} (hp : Within a D Q p) (hn : n.sessionService = a) :
    Tends a D N Q n p := by
  induction hp generalizing n with
  | done hc => exact .done hc
  | look _ ih => exact .read fun now => ih now n hn hn
  | change hf _ ih =>
    exact .read fun _ => .write (hf n).tended (ih n hn ((hf n).service.trans hn))
  | send hd _ ih => exact .send hd fun o n' hn' => ih o hn'

/-- One program after another. -/
theorem Tends.bind {p : Program Node α} {f : α → Program Node β} (hn : n.sessionService = a)
    (hp : Tends a D N Q n p)
    (hf : ∀ c n', n'.sessionService = a → Q c → Tends a D N R n' (f c)) :
    Tends a D N R n (p >>= f) := by
  show Tends a D N R n (p.bind f)
  induction hp with
  | done hc => exact hf _ _ hn hc
  | read _ ih => exact .read fun now => ih now hn
  | write hs _ ih => exact .write hs (ih (hs.service.trans hn))
  | send hd _ ih => exact .send hd fun o n' hn' => ih o n' hn' hn'

/-- A look of the node at itself, and a program after it. -/
theorem Tends.get {f : Node → Program Node β} (h : Tends a D N R n (f n)) :
    Tends a D N R n (MonadState.get >>= f) :=
  .read fun _ => h

/-- A change of the node, and a program after it. -/
theorem Tends.change {f : Node → Node} {g : PUnit → Program Node β} (hf : Tended N n (f n))
    (h : Tends a D N R (f n) (g ⟨⟩)) : Tends a D N R n (modify f >>= g) :=
  .read fun _ => .write hf h

theorem ActsTending.pure {c : α} (h : Q c) : ActsTending a D N Q n (Pure.pure c) := by
  apply Tends.done
  rintro _ ⟨⟩
  exact h

theorem ActsTending.throw (e : TunnelError) : ActsTending a D N Q n (throw e : Action α) :=
  .done fun _ => nofun

theorem ActsWithin.tends {x : Action α} (hx : ActsWithin a D Q x) (hn : n.sessionService = a) :
    ActsTending a D N Q n x :=
  Within.tends hx hn

/-- One action after another. -/
theorem ActsTending.bind {x : Action α} {f : α → Action β} (hn : n.sessionService = a)
    (hx : ActsTending a D N Q n x)
    (hf : ∀ c n', n'.sessionService = a → Q c → ActsTending a D N R n' (f c)) :
    ActsTending a D N R n (x >>= f) := by
  refine Tends.bind hn hx ?_
  rintro (e | c) n' hn' hres
  · exact .done fun _ => nofun
  · exact hf c n' hn' (hres c rfl)

/-- A look of the node at itself, and an action after it. -/
theorem ActsTending.get {f : Node → Action β} (h : ActsTending a D N R n (f n)) :
    ActsTending a D N R n (MonadState.get >>= f) :=
  .read fun _ => h

/-- A change of the node, and an action after it. -/
theorem ActsTending.change {f : Node → Node} {g : PUnit → Action β} (hf : Tended N n (f n))
    (h : ActsTending a D N R (f n) (g ⟨⟩)) : ActsTending a D N R n (modify f >>= g) :=
  .read fun _ => .write hf h

/-! ### What it comes to in a run -/

section Goes
variable {E : Surroundings} {t : List Contact} {c? : Option α} {p : Program Node α}

/-- Whatever the surroundings do, if they leave the session service where it is, a program that
tends links has sent what it may by any time, and ended with what it may if it has ended. -/
theorem Tends.goes (hp : Tends a D N Q n p) (hE : E.Steady) (hn : n.sessionService = a)
    (h : Goes E p n t c? n') :
    n'.sessionService = a ∧ (∀ c ∈ t, D c.dest c.message) ∧ ∀ c, c? = some c → Q c := by
  induction hp generalizing t with
  | done hc =>
    cases h with
    | pause => exact ⟨hn, by simp, by simp⟩
    | done => exact ⟨hn, by simp, by simpa using hc⟩
  | read _ ih =>
    cases h with
    | pause => exact ⟨hn, by simp, by simp⟩
    | read now h => exact ih now hn h
  | write hs _ ih =>
    cases h with
    | pause => exact ⟨hn, by simp, by simp⟩
    | write h => exact ih (hs.service.trans hn) h
  | send hd _ ih =>
    cases h with
    | pause => exact ⟨hn, by simp, by simp⟩
    | @send _ _ _ _ _ n₁ _ _ _ o he h =>
      have hn₁ : n₁.sessionService = a := (hE _ _ _ _ _ he).trans hn
      obtain ⟨hservice, hsent, hended⟩ := ih o n₁ hn₁ hn₁ h
      exact ⟨hservice, List.forall_mem_cons.2 ⟨hd, hsent⟩, hended⟩

/-- The same of a program that keeps within bounds. -/
theorem Within.goes (hp : Within a D Q p) (hE : E.Steady) (hn : n.sessionService = a)
    (h : Goes E p n t c? n') :
    n'.sessionService = a ∧ (∀ c ∈ t, D c.dest c.message) ∧ ∀ c, c? = some c → Q c :=
  (hp.tends (N := fun _ _ => False) hn).goes hE hn h

end Goes

/-! ### What hops do -/

theorem tended_accept {id : UInt32} {peer : Identity} (hnew : N id peer) (n : Node) :
    Tended N n { n with links := n.links.accept id peer } := by
  refine ⟨rfl, rfl, ?_⟩
  intro id' link hlink
  by_cases hid : id' = id
  · subst hid
    obtain rfl := Option.some.inj ((Table.get?_insert_self _ _ _).symm.trans hlink)
    exact .inl hnew
  · exact .inr ⟨link, (Table.get?_insert_of_ne _ _ hid).symm.trans hlink, rfl⟩

theorem tended_extend {id : UInt32} {next : Downstream} {links : LinkTable}
    (h : n.links.extend id next = .ok links) : Tended N n { n with links := links } := by
  refine ⟨rfl, rfl, ?_⟩
  intro id' link hlink
  unfold LinkTable.extend at h
  split at h
  · cases h
  · next peer hold =>
    obtain rfl := Except.ok.inj h
    by_cases hid : id' = id
    · subst hid
      obtain rfl := Option.some.inj ((Table.get?_insert_self _ _ _).symm.trans hlink)
      exact .inr ⟨_, hold, rfl⟩
    · exact .inr ⟨link, (Table.get?_insert_of_ne _ _ hid).symm.trans hlink, rfl⟩
  · cases h

theorem tended_erase (id : UInt32) (n : Node) :
    Tended N n { n with links := n.links.erase id } := by
  refine ⟨rfl, rfl, ?_⟩
  intro id' link hlink
  by_cases hid : id' = id
  · subst hid
    cases (Table.get?_erase_self _ _).symm.trans hlink
  · exact .inr ⟨link, (Table.get?_erase_of_ne _ hid).symm.trans hlink, rfl⟩

section Hops
variable {id : UInt32}

/-- Once a session is accepted, its link is added. -/
theorem tends_addLink {peer : Identity} (hn : n.sessionService = a) (hnew : N id peer)
    (returned : Bytes) : ActsTending a D N (fun _ => True) n (do
      modify fun n => { n with links := n.links.accept id peer }
      modify (updateDirectory (·.bindSession id peer))
      return (id, returned)) := by
  apply ActsTending.change (tended_accept hnew n)
  have hbind : ActsWithin a D (fun _ => True) (do
      modify (updateDirectory (·.bindSession id peer))
      return (id, returned)) :=
    ActsWithin.after (within_updateDirectory _) fun _ _ => ActsWithin.pure trivial
  exact hbind.tends hn

theorem tends_acceptHandshake {hostkey handshake : Bytes} (hn : n.sessionService = a)
    (hd : D a (.incomingHandshake1 hostkey handshake))
    (hnew : ∀ id, N id (.ofHostkey hostkey)) :
    ActsTending a D N (fun _ => True) n (acceptHandshake hostkey handshake) := by
  refine ActsTending.bind hn ((within_acceptSession hd).tends hn) ?_
  rintro ⟨link, returned⟩ n' hn' -
  exact tends_addLink hn' (hnew link) returned

theorem tends_joinNext {next : Downstream} (hn : n.sessionService = a)
    (hd : Peering D next.address) : ActsTending a D N (fun _ => True) n (joinNext id next) := by
  apply ActsTending.get
  split
  · next links hlinks =>
    exact ActsTending.change (tended_extend hlinks) (ActsTending.pure trivial)
  · next e _ =>
    have hdrop : ActsWithin a D (fun _ => True) (do
        dropLink next.address next.link
        throw e : Action Unit) :=
      ActsWithin.after (within_dropLink hd _) fun _ _ => ActsWithin.throw _
    exact hdrop.tends hn

theorem tends_extendLink {nextHop : Address} (hn : n.sessionService = a) (hd : Peering D nextHop)
    (incoming : Bytes) : ActsTending a D N (fun _ => True) n (extendLink id nextHop incoming) := by
  refine ActsTending.bind hn ((within_ofFrame _).tends hn) fun m n₁ hn₁ _ => ?_
  split
  · refine ActsTending.bind hn₁ ((within_deliverHandshake hd _ _).tends hn₁) ?_
    rintro ⟨link, returned⟩ n₂ hn₂ -
    refine ActsTending.bind hn₂ (tends_joinNext hn₂ hd) fun _ n₃ hn₃ _ => ?_
    exact ((within_ofFrame _).mono fun _ _ => trivial).tends hn₃
  · exact ActsTending.throw _

theorem within_deliver (d : Delivery) : ActsWithin a D (fun _ => True) (deliver d) := by
  refine ActsWithin.after Within.get fun n _ => ?_
  obtain ⟨reply, sink⟩ := n.sink.deliver d
  refine ActsWithin.after (Within.modify fun _ => ⟨rfl, rfl, rfl⟩) fun _ _ => ?_
  cases reply with
  | ok reply => exact ActsWithin.pure trivial
  | error e => exact ActsWithin.throw _

/-- The last hop of a route speaks to another one only if it is told to extend the route. -/
theorem tends_execute {command : Bytes} (hn : n.sessionService = a) (hd : ∀ nextHop incoming,
    Message.decode command = .ok (.tunnelExtend nextHop incoming) → Peering D nextHop)
    (peer : Identity) : ActsTending a D N (fun _ => True) n (execute id peer command) := by
  refine ActsTending.bind hn ((within_ofFrame _).tends hn) fun m n₁ hn₁ hm => ?_
  split
  · exact tends_extendLink hn₁ (hd _ _ hm) _
  · split
    · exact (within_deliver _).tends hn₁
    · exact ActsTending.throw _
  · exact ActsTending.throw _

/-- A hop that handles a cell passes it on, or does what it says. -/
theorem tends_answerCell {link : Link} {text : Bytes} (hn : n.sessionService = a)
    (hnext : ∀ next, link.downstream? = some next → Peering D next.address)
    (hextend : link.downstream? = none → ∀ nextHop incoming,
      Message.decode text = .ok (.tunnelExtend nextHop incoming) → Peering D nextHop)
    (hwrap : ∀ number reply, D a (.layerEncrypt number [id] reply)) :
    ActsTending a D N (fun _ => True) n (do
      let reply ← match link.downstream? with
        | some next => sendCell next.address next.link text
        | none => execute id link.peer text
      encryptLayers [id] reply) := by
  have hreply : ∀ reply n', n'.sessionService = a →
      ActsTending a D N (fun _ => True) n' (encryptLayers [id] reply) := by
    intro reply n' hn'
    exact (within_encryptLayers fun number => hwrap number reply).tends hn'
  show ActsTending a D N _ n (match link.downstream? with
    | some next => sendCell next.address next.link text >>= encryptLayers [id]
    | none => execute id link.peer text >>= encryptLayers [id])
  split
  · next next hlink =>
    refine ActsTending.bind hn ((within_sendCell (hnext next hlink) _ _).tends hn) ?_
    exact fun reply n' hn' _ => hreply reply n' hn'
  · next hlink =>
    refine ActsTending.bind hn (tends_execute hn (hextend hlink) _) ?_
    exact fun reply n' hn' _ => hreply reply n' hn'

/-- A hop that drops a link has its session closed and tells the next hop. -/
theorem tends_drop {link : Link} (hn : n.sessionService = a)
    (hclose : D a (.sessionClose id))
    (hnext : ∀ next, link.downstream? = some next → Peering D next.address) :
    Tends a D N (fun _ => True) n (do
      modify fun n => { n with links := n.links.erase id }
      closeSession id
      match link.downstream? with
      | some next => dropLink next.address next.link
      | none => return : Program Node Unit) := by
  apply Tends.change (tended_erase id n)
  refine Tends.bind hn ((within_closeSession hclose).tends hn) fun _ n' hn' _ => ?_
  split
  · next next hlink => exact (within_dropLink (hnext next hlink) _).tends hn'
  · exact .done trivial

end Hops

end OnionTunnel.Node
