import OnionTunnel.Proofs.Node.Tasks

/-!
# What a hop owes

A next hop that has returned a handshake holds a session for a link. The hop that asked for it has a
link go on there, or it tells the next hop to drop the session. Until then it owes that.

`Owes` says of a program that it comes to one of the two, whatever its messages bring back and
whatever the node has become meanwhile. `Tidy` says of a program what it does to the links: one that
goes on stays as it is, or it is dropped and what it went on to is owed from there on.

## Implementation notes

Both follow a program from the node that begins it, since `joinNext` and `handleDestroy` change the
links by what they have just seen of them. Only a hop that accepts a handshake adds a link, and it
leaves the others alone.
-/

namespace OnionTunnel.Node

variable {α β : Type} {a dest : Address} {job : Job} {next : Downstream} {n n' s : Node}
  {m : Message} {D : Address → Message → Prop} {Q : α → Prop} {id : UInt32} {link : Link}

/-- Some link of a node goes on to a downstream. -/
def Records (n : Node) (next : Downstream) : Prop :=
  ∃ id link, n.links.get? id = some link ∧ link.downstream? = some next

/-- A program that a node begins has a link go on to a downstream or tells the hop there to drop
it. -/
inductive Owes {α : Type} (next : Downstream) : Node → Program Node α → Prop
  | read {n : Node} {k : Instant → Node → Program Node α} (h : ∀ now, Owes next n (k now n)) :
      Owes next n (.read k)
  | records {n s : Node} {p : Program Node α} (h : Records s next) : Owes next n (.write s p)
  | write {n s : Node} {p : Program Node α} (h : Owes next s p) : Owes next n (.write s p)
  | tells {n : Node} {limit : Option Duration} {k : Outcome → Program Node α} :
      Owes next n (.send next.address (.tunnelDestroy next.link) limit k)
  | send {n : Node} {dest : Address} {m : Message} {limit : Option Duration}
      {k : Outcome → Program Node α} (h : ∀ o n', Owes next n' (k o)) :
      Owes next n (.send dest m limit k)

/-- A look of the node at itself, and what is owed after it. -/
theorem Owes.get {f : Node → Action β} (h : Owes next n (f n).run) :
    Owes next n (MonadState.get >>= f : Action β).run :=
  .read fun _ => h

/-- What is owed is owed by whatever follows as well. -/
theorem Owes.bind {p : Program Node α} (h : Owes next n p) (f : α → Program Node β) :
    Owes next n (p >>= f) := by
  show Owes next n (p.bind f)
  induction h with
  | read _ ih => exact .read ih
  | records h => exact .records h
  | write _ ih => exact .write ih
  | tells => exact .tells
  | send _ ih => exact .send ih

/-- What is owed in the end is owed from the start. -/
theorem Owes.after (p : Program Node α) {f : α → Program Node β} (hf : ∀ c n, Owes next n (f c)) :
    Owes next n (p >>= f) := by
  show Owes next n (p.bind f)
  induction p generalizing n with
  | done c => exact hf c n
  | read k ih => exact .read fun now => ih now n
  | write s p ih => exact .write ih
  | send dest m limit k ih => exact .send fun o n' => ih o

/-- A program that waits for what comes of a message owes the same to every node. -/
theorem Owes.anywhere {limit : Option Duration} {k : Outcome → Program Node α}
    (h : Owes next n (.send dest m limit k)) (n' : Node) : Owes next n' (.send dest m limit k) := by
  cases h with
  | tells => exact .tells
  | send h => exact .send h

/-! ### Tidy programs -/

/-- What becomes of a link when a job changes the node: it stays, it is extended, or it is dropped
and what it went on to is owed by the rest of the program. -/
inductive Fate (job : Job) (s : Node) (p : Program Node α) (id : UInt32) (link : Link) : Prop
  | kept (h : s.links.get? id = some link)
  | extended {next : Downstream} (hjob : job.accepts = false) (hend : link.downstream? = none)
      (h : s.links.get? id = some ⟨link.peer, some next⟩)
  | dropped (hjob : job.accepts = false) (h : s.links.get? id = none)
      (howes : ∀ next, link.downstream? = some next → Owes next s p)

/-- What a job may change of a node before it goes on with a program. -/
structure Change (job : Job) (n s : Node) (p : Program Node α) : Prop where
  service : s.sessionService = n.sessionService
  links : ∀ id link, n.links.get? id = some link → Fate job s p id link
  new : job.accepts = false → ∀ id, n.links.get? id = none → s.links.get? id = none

/-- A job is to handle a cell. -/
def Job.relays : Job → Bool
  | peer (.tunnelData ..) => true
  | _ => false

/-- The link that a message brings back, if it offers a session. -/
def grant? : Message → Outcome → Option UInt32
  | .incomingHandshake1 .., o => granted? o
  | _, _ => none

/-- A program that a node begins for a job, whose session service is at an address, is tidy. If the
job is to handle a cell, the program owes each link that it is granted. -/
inductive Tidy {α : Type} (a : Address) (job : Job) : Node → Program Node α → Prop
  | done {n : Node} {c : α} : Tidy a job n (.done c)
  | read {n : Node} {k : Instant → Node → Program Node α} (h : ∀ now, Tidy a job n (k now n)) :
      Tidy a job n (.read k)
  | write {n s : Node} {p : Program Node α} (hs : Change job n s p) (h : Tidy a job s p) :
      Tidy a job n (.write s p)
  | send {n : Node} {dest : Address} {m : Message} {limit : Option Duration}
      {k : Outcome → Program Node α}
      (hgrant : job.relays = true → ∀ o link, grant? m o = some link →
        ∀ n', Owes ⟨dest, link⟩ n' (k o))
      (h : ∀ o n', n'.sessionService = a → Tidy a job n' (k o)) :
      Tidy a job n (.send dest m limit k)

/-- The same of an action. -/
def ActsTidy (a : Address) (job : Job) (n : Node) (x : Action α) : Prop := Tidy a job n x.run

theorem Change.of_links {p : Program Node α} (hservice : s.sessionService = n.sessionService)
    (hlinks : s.links = n.links) : Change job n s p where
  service := hservice
  links _ _ h := .kept (hlinks ▸ h)
  new _ _ h := hlinks ▸ h

theorem Change.bind {p : Program Node α} (h : Change job n s p) (f : α → Program Node β) :
    Change job n s (p.bind f) where
  service := h.service
  new := h.new
  links id link hlink := by
    cases h.links id link hlink with
    | kept h => exact .kept h
    | extended hjob hend h => exact .extended hjob hend h
    | dropped hjob h howes => exact .dropped hjob h fun next hnext => (howes next hnext).bind f

/-! ### Rules -/

/-- One program after another. -/
theorem Tidy.bind {p : Program Node α} {f : α → Program Node β} (hn : n.sessionService = a)
    (hp : Tidy a job n p) (hf : ∀ c n', n'.sessionService = a → Tidy a job n' (f c)) :
    Tidy a job n (p >>= f) := by
  show Tidy a job n (p.bind f)
  induction hp with
  | done => exact hf _ _ hn
  | read _ ih => exact .read fun now => ih now hn
  | write hs _ ih => exact .write (hs.bind f) (ih (hs.service.trans hn))
  | send hgrant _ ih =>
    refine .send ?_ fun o n' hn' => ih o n' hn' hn'
    exact fun hjob o link ho n' => (hgrant hjob o link ho n').bind f

theorem Tidy.pure {c : α} : Tidy a job n (Pure.pure c : Program Node α) := .done

theorem ActsTidy.throw (e : TunnelError) : ActsTidy a job n (throw e : Action α) := .done

/-- A look of the node at itself, and a program after it. -/
theorem Tidy.get {f : Node → Program Node α} (h : Tidy a job n (f n)) :
    Tidy a job n (MonadState.get >>= f) :=
  .read fun _ => h

/-- One action after another. -/
theorem ActsTidy.bind {x : Action α} {f : α → Action β} (hn : n.sessionService = a)
    (hx : ActsTidy a job n x) (hf : ∀ c n', n'.sessionService = a → ActsTidy a job n' (f c)) :
    ActsTidy a job n (x >>= f) := by
  refine Tidy.bind hn hx ?_
  rintro (e | c) n' hn'
  · exact .done
  · exact hf c n' hn'

/-- A look of the node at itself, and an action after it. -/
theorem ActsTidy.get {f : Node → Action β} (h : ActsTidy a job n (f n)) :
    ActsTidy a job n (MonadState.get >>= f) :=
  .read fun _ => h

/-- A message offers a session. -/
def Offers (m : Message) : Prop := ∃ hostkey handshake, m = .incomingHandshake1 hostkey handshake

theorem offers_of_grant? {o : Outcome} {link : UInt32} (h : grant? m o = some link) : Offers m := by
  cases m with
  | incomingHandshake1 hostkey handshake => exact ⟨hostkey, handshake, rfl⟩
  | _ => cases h

/-- A program that leaves links alone is tidy, as long as it offers no session to a next hop. -/
theorem Within.tidy {p : Program Node α} (hp : Within a D Q p) (hn : n.sessionService = a)
    (hD : job.relays = true → ∀ dest m, D dest m → ¬ Offers m) : Tidy a job n p := by
  induction hp generalizing n with
  | done => exact .done
  | look _ ih => exact .read fun now => ih now n hn hn
  | change hf _ ih =>
    exact .read fun _ => .write (.of_links (hf n).service (hf n).links)
      (ih n hn ((hf n).service.trans hn))
  | send hd _ ih =>
    refine .send ?_ fun o n' hn' => ih o hn'
    exact fun hjob o link ho => (hD hjob _ _ hd (offers_of_grant? ho)).elim

/-- What a cell takes beside offers of sessions. -/
def Plainly (_ : Address) (m : Message) : Prop := ¬ Offers m

theorem Within.plainly {p : Program Node α} (hp : Within a Plainly Q p)
    (hn : n.sessionService = a) : Tidy a job n p :=
  hp.tidy hn fun _ _ _ h => h

theorem ActsWithin.tidy {x : Action α} (hx : ActsWithin a Plainly Q x) (hn : n.sessionService = a) :
    ActsTidy a job n x :=
  Within.plainly hx hn

/-! ### Links that go on -/

theorem tidy_dropLink (dest : Address) (link : UInt32) : Tidy a job n (dropLink dest link) :=
  .read fun _ => .send (fun _ _ _ => nofun) fun _ _ _ => .done

theorem owes_dropLink (next : Downstream) (n : Node) :
    Owes next n (dropLink next.address next.link) :=
  .read fun _ => .tells

theorem tidy_sendCell (hn : n.sessionService = a) (dest : Address) (link : UInt32) (data : Bytes) :
    ActsTidy a job n (sendCell dest link data) := by
  have hask : ActsWithin a Plainly (fun _ => True) (askPeer dest (.tunnelData link data)) :=
    within_askPeer (by rintro ⟨_, _, ⟨⟩⟩)
  refine ActsTidy.bind hn (hask.tidy hn) fun reply n' _ => ?_
  split <;> exact .done

/-- Only a link that ends here is extended. -/
theorem extend_ok {t links : LinkTable} (h : t.extend id next = .ok links) :
    ∃ peer, t.get? id = some ⟨peer, none⟩ ∧ links = t.insert id ⟨peer, some next⟩ := by
  unfold LinkTable.extend at h
  split at h
  · cases h
  · next peer hold => exact ⟨peer, hold, (Except.ok.inj h).symm⟩
  · cases h

theorem records_extend {links : LinkTable} (h : n.links.extend id next = .ok links) :
    Records { n with links := links } next := by
  obtain ⟨peer, -, rfl⟩ := extend_ok h
  exact ⟨id, _, Table.get?_insert_self _ _ _, rfl⟩

theorem change_extend (hjob : job.accepts = false) {links : LinkTable}
    (h : n.links.extend id next = .ok links) (p : Program Node α) :
    Change job n { n with links := links } p := by
  obtain ⟨peer, hold, rfl⟩ := extend_ok h
  refine ⟨rfl, ?_, ?_⟩
  · intro id' link hlink
    by_cases hid : id' = id
    · subst hid
      obtain rfl := Option.some.inj (hold.symm.trans hlink)
      exact .extended hjob rfl (Table.get?_insert_self _ _ _)
    · exact .kept ((Table.get?_insert_of_ne _ _ hid).trans hlink)
  · intro _ id' hnone
    have hid : id' ≠ id := by
      rintro rfl
      cases hold.symm.trans hnone
    exact (Table.get?_insert_of_ne _ _ hid).trans hnone

/-- A granted link is recorded, or the next hop is told to drop it. -/
theorem tidy_joinNext (hjob : job.accepts = false) (next : Downstream) :
    ActsTidy a job n (joinNext id next) := by
  apply ActsTidy.get
  split
  · next links hlinks => exact .read fun _ => .write (change_extend hjob hlinks _) .done
  · exact .read fun _ => .send (fun _ _ _ => nofun) fun _ _ _ => .done

theorem owes_joinNext (id : UInt32) (next : Downstream) (n : Node) :
    Owes next n (joinNext id next).run := by
  apply Owes.get
  split
  · next links hlinks =>
    exact .read fun _ => .records (records_extend hlinks)
  · exact .read fun _ => .tells

/-- What an extension owes when the next hop answers. -/
theorem tidy_extendLink (hjob : job.accepts = false) (hn : n.sessionService = a) (nextHop : Address)
    (incoming : Bytes) : ActsTidy a job n (extendLink id nextHop incoming) := by
  refine ActsTidy.bind hn ((within_ofFrame _).tidy hn) fun m n₁ hn₁ => ?_
  split
  · refine .read fun _ => .send ?_ ?_
    · intro _ o link ho n'
      obtain e | _ | reply := o
      · cases ho
      · cases ho
      · cases reply with
        | sessionHandshake2 link' returned =>
          obtain rfl := Option.some.inj ho
          exact (owes_joinNext id ⟨nextHop, link'⟩ n').bind _
        | _ => cases ho
    · intro o n' hn'
      obtain e | _ | reply := o
      · exact .done
      · exact .done
      · cases reply with
        | sessionHandshake2 link returned =>
          refine ActsTidy.bind hn' (tidy_joinNext hjob ⟨nextHop, link⟩) fun _ n'' hn'' => ?_
          exact (within_ofFrame _).tidy hn''
        | _ => exact .done
  · exact .done

theorem tidy_execute (hjob : job.accepts = false) (hn : n.sessionService = a) (peer : Identity)
    (command : Bytes) : ActsTidy a job n (execute id peer command) := by
  refine ActsTidy.bind hn ((within_ofFrame _).tidy hn) fun m n₁ hn₁ => ?_
  split
  · exact tidy_extendLink hjob hn₁ _ _
  · split
    · exact (within_deliver _).tidy hn₁
    · exact .done
  · exact .done

theorem tidy_handleCell (hjob : job.accepts = false) (hn : n.sessionService = a) (id : UInt32)
    (data : Bytes) : ActsTidy a job n (handleCell id data) := by
  have hwrap : ∀ reply n', n'.sessionService = a → ActsTidy a job n' (encryptLayers [id] reply) := by
    intro reply n' hn'
    exact (within_encryptLayers fun _ => by rintro ⟨_, _, ⟨⟩⟩).tidy hn'
  apply ActsTidy.get
  split
  · exact .done
  · next link _ =>
    have hpeel : ActsWithin a Plainly (fun _ => True) (decryptLayers [id] data) :=
      within_decryptLayers fun _ => by rintro ⟨_, _, ⟨⟩⟩
    refine ActsTidy.bind hn (hpeel.tidy hn) fun text n₁ hn₁ => ?_
    obtain ⟨peer, _ | next⟩ := link
    · exact ActsTidy.bind hn₁ (tidy_execute hjob hn₁ peer text) fun reply n₂ hn₂ =>
        hwrap reply n₂ hn₂
    · exact ActsTidy.bind hn₁ (tidy_sendCell hn₁ next.address next.link text) fun reply n₂ hn₂ =>
        hwrap reply n₂ hn₂

/-- A hop that drops a link owes what the link went on to. -/
theorem tidy_handleDestroy (hjob : job.accepts = false) (hn : n.sessionService = a) (id : UInt32) :
    Tidy a job n (handleDestroy id) := by
  apply Tidy.get
  split
  · exact .done
  · next link hlink =>
    refine .read fun _ => .write ⟨rfl, ?_, ?_⟩ ?_
    · intro id' link' hlink'
      by_cases hid : id' = id
      · subst hid
        obtain rfl := Option.some.inj (hlink.symm.trans hlink')
        refine .dropped hjob (Table.get?_erase_self _ _) fun next hnext => ?_
        refine Owes.after (closeSession id') fun _ n' => ?_
        rw [hnext]
        exact owes_dropLink next n'
      · exact .kept ((Table.get?_erase_of_ne _ hid).trans hlink')
    · intro _ id' hnone
      have hid : id' ≠ id := by
        rintro rfl
        cases hlink.symm.trans hnone
      exact (Table.get?_erase_of_ne _ hid).trans hnone
    · have hclose : Within a Plainly (fun _ => True) (closeSession id) :=
        within_closeSession (by rintro ⟨_, _, ⟨⟩⟩)
      show Tidy a job { n with links := n.links.erase id } (closeSession id >>= fun _ => _)
      refine Tidy.bind hn (hclose.plainly hn) fun _ n' _ => ?_
      split
      · exact tidy_dropLink _ _
      · exact .done

/-- Once a session is accepted, its link is added beside the others. -/
theorem tidy_addLink (hjob : job.accepts = true) (hn : n.sessionService = a)
    (hfree : n.links.get? id = none) (peer : Identity) (returned : Bytes) : ActsTidy a job n (do
      modify fun n => { n with links := n.links.accept id peer }
      modify (updateDirectory (·.bindSession id peer))
      return (id, returned)) := by
  have hbind : ActsWithin a Plainly (fun _ => True) (do
      modify (updateDirectory (·.bindSession id peer))
      return (id, returned)) :=
    ActsWithin.after (within_updateDirectory _) fun _ _ => ActsWithin.pure trivial
  refine .read fun _ => .write ⟨rfl, ?_, ?_⟩ (hbind.tidy hn)
  · intro id' link hlink
    have hid : id' ≠ id := by
      rintro rfl
      cases hfree.symm.trans hlink
    exact .kept ((Table.get?_insert_of_ne _ _ hid).trans hlink)
  · intro hfalse
    cases hjob.symm.trans hfalse

/-! ### Jobs -/

theorem Tidy.quietly {p : Program Node α} (hn : n.sessionService = a) (hp : Tidy a job n p) :
    Tidy a job n (quietly p) :=
  Tidy.bind hn hp fun _ _ _ => .done

/-- Whatever a node is asked to do is tidy, unless it is to accept a session. -/
theorem Job.tidy {job : Job} (haccepts : job.accepts = false) (n : Node) :
    Tidy n.sessionService job n job.program := by
  have hwithin : ∀ {p : Program Node Unit}, job.relays = false →
      Within n.sessionService (fun _ _ => True) (fun _ => True) p →
        Tidy n.sessionService job n p := by
    intro p hrelays hp
    refine hp.tidy rfl fun htrue => ?_
    cases hrelays.symm.trans htrue
  have hpeers : ∀ dest, Peering (fun _ _ => True) dest := fun dest => .of_all fun _ => trivial
  have hdone : ∀ {γ : Type} {p : Program Node γ} {Q : γ → Prop},
      Within n.sessionService (fun _ _ => True) Q p →
        Within n.sessionService (fun _ _ => True) (fun _ => True) (Node.quietly p) :=
    fun hp => hp.bind fun _ _ => .done trivial
  cases job with
  | peer m =>
    refine Tidy.quietly rfl ?_
    cases m with
    | incomingHandshake1 => cases haccepts
    | tunnelData id data =>
      refine Tidy.bind rfl (tidy_handleCell rfl rfl id data) fun res n' _ => ?_
      cases res <;> exact .done
    | tunnelDestroy id => exact Tidy.bind rfl (tidy_handleDestroy rfl rfl id) fun _ _ _ => .done
    | _ => exact .done
  | client m =>
    exact hwithin rfl (hdone (within_answerClients (fun _ => trivial) hpeers (fun _ => trivial) m))
  | build mode hops => exact hwithin rfl (hdone (within_build (fun _ => trivial) fun x _ => hpeers x))
  | send tunnel payload =>
    exact hwithin rfl (hdone (within_send (fun _ => trivial) hpeers tunnel payload))
  | receive tunnel layered =>
    exact hwithin rfl (hdone (within_receive (fun _ => trivial) tunnel layered))
  | teardown tunnel =>
    exact hwithin rfl (hdone (within_teardown (fun _ => trivial) hpeers tunnel))

/-- A node that is offered a session asks its session service at once. What it does with the answer
is tidy if there is no link with the number that comes back. -/
theorem settle_offer_tidy (now : Instant) (hostkey handshake : Bytes) (n : Node) : ∃ k,
    settle now (Job.peer (.incomingHandshake1 hostkey handshake)).program n =
      (.send n.sessionService (.incomingHandshake1 hostkey handshake) none k, n) ∧
    ∀ o n', n'.sessionService = n.sessionService →
      (∀ id, granted? o = some id → n'.links.get? id = none) →
        Tidy n.sessionService (.peer (.incomingHandshake1 hostkey handshake)) n' (k o) := by
  refine ⟨_, rfl, ?_⟩
  intro o n' hn' hfree
  obtain e | _ | reply := o
  · exact .done
  · exact .done
  · cases reply with
    | sessionHandshake2 id returned =>
      refine Tidy.quietly hn' (Tidy.bind hn' (tidy_addLink rfl hn'
        (hfree id rfl) (.ofHostkey hostkey) returned) ?_)
      rintro (e | c) n'' - <;> exact .done
    | _ => exact .done

/-! ### Up to the next message -/

/-- What a tidy program has come to when it waits for its next message or ends: it is tidy from any
node on. Each link that went on stays, or it is gone and its downstream recorded or owed; so is all
that was owed. -/
structure Reached (a : Address) (job : Job) (n n' : Node) (p p' : Program Node α) : Prop where
  service : n'.sessionService = a
  tidy : ∀ n'', n''.sessionService = a → Tidy a job n'' p'
  links : ∀ id link next, n.links.get? id = some link → link.downstream? = some next →
    n'.links.get? id = some link ∨
      n'.links.get? id = none ∧ (Records n' next ∨ ∀ n'', Owes next n'' p')
  new : job.accepts = false → ∀ id, n.links.get? id = none → n'.links.get? id = none
  owed : ∀ next, Owes next n p → Records n' next ∨ ∀ n'', Owes next n'' p'

theorem Tidy.settle {p : Program Node α} (h : Tidy a job n p) (hn : n.sessionService = a)
    (now : Instant) : Reached a job n (settle now p n).2 p (settle now p n).1 := by
  induction h with
  | done =>
    refine ⟨hn, fun _ _ => .done, fun _ _ _ h _ => .inl h, fun _ _ h => h, ?_⟩
    rintro next ⟨⟩
  | read _ ih =>
    obtain ⟨hservice, htidy, hlinks, hnew, howed⟩ := ih now hn
    refine ⟨hservice, htidy, hlinks, hnew, ?_⟩
    intro next howes
    cases howes with
    | read howes => exact howed next (howes now)
  | @write n s p hs htidy ih =>
    obtain ⟨hservice, htidy, hlinks, hnew, howed⟩ := ih (hs.service.trans hn)
    refine ⟨hservice, htidy, ?_, fun hjob id h => hnew hjob id (hs.new hjob id h), ?_⟩
    · intro id link next hlink hnext
      cases hs.links id link hlink with
      | kept h => exact hlinks id link next h hnext
      | extended _ hend _ => cases hend.symm.trans hnext
      | dropped hjob hnone howes => exact .inr ⟨hnew hjob id hnone, howed next (howes next hnext)⟩
    · intro next howes
      cases howes with
      | records hrecords =>
        obtain ⟨id, link, hlink, hnext⟩ := hrecords
        obtain h | ⟨-, h⟩ := hlinks id link next hlink hnext
        · exact .inl ⟨id, link, h, hnext⟩
        · exact h
      | write howes => exact howed next howes
  | send hgrant htidy _ =>
    refine ⟨hn, fun _ _ => .send hgrant htidy, fun _ _ _ h _ => .inl h, fun _ _ h => h, ?_⟩
    exact fun next howes => .inr howes.anywhere

end OnionTunnel.Node
