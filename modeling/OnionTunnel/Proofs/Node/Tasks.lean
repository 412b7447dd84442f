import OnionTunnel.Proofs.Node.Neighbours
import OnionTunnel.Proofs.Session.Lifecycle

/-!
# A node with several tasks

A node takes up what it is asked to do at any time, and while one task waits for what comes of a
message, it goes on with others. A `Scene` is a node with its tasks, of which each is the rest of a
program. Sessions are also asked for by others, and sessions that are idle expire.

## Implementation notes

A task goes on from one message to the next without a break. A message to the node's own session
service takes two moves, the answer and what the task does with it, so that others can come between
the two. What comes of other messages is arbitrary.

A scene remembers of each number the session that was last accepted for a link with that number. No
move depends on that memory, nor on the number that a task carries.
-/

namespace OnionTunnel.Node

variable {α : Type} {a : Address} {D : Address → Message → Prop} {N : UInt32 → Identity → Prop}
  {Q : α → Prop} {n : Node} {id : UInt32}

/-- What a node can be asked to do that takes messages. -/
inductive Job where
  | peer (m : Message)
  | client (m : Message)
  | build (mode : TunnelMode) (hops : List Hop)
  | send (tunnel : UInt32) (payload : Bytes)
  | receive (tunnel : UInt32) (layered : Bytes)
  | teardown (tunnel : UInt32)

/-- A program without what it ends with. -/
def quietly (p : Program Node α) : Program Node Unit := p >>= fun _ => pure ()

/-- What a node does when it is asked. -/
def Job.program : Job → Program Node Unit
  | peer m => quietly (answerPeers m)
  | client m => quietly (answerClients m)
  | build mode hops => quietly (Node.build mode hops).run
  | send tunnel payload => quietly (Node.send tunnel payload).run
  | receive tunnel layered => quietly (Node.receive tunnel layered).run
  | teardown tunnel => quietly (Node.teardown tunnel).run

/-- The link that a cell or a destroy is for. -/
def Job.link? : Job → Option UInt32
  | peer (.tunnelData link _) => some link
  | peer (.tunnelDestroy link) => some link
  | _ => none

/-- A peer offers a session. -/
def Job.accepts : Job → Bool
  | peer (.incomingHandshake1 ..) => true
  | _ => false

/-- Something that a node has under way. -/
structure Task where
  job : Job
  /-- The number of the link that the task is about: of the one that was there for it when it
  began, or of the one that the task adds. -/
  number? : Option UInt32
  rest : Program Node Unit

/-- There is nothing left to do. -/
def Task.ended (t : Task) : Bool :=
  match t.rest with
  | .done _ => true
  | _ => false

/-- A program runs up to its next message. -/
def settle (now : Instant) : Program Node α → Node → Program Node α × Node
  | .done a, n => (.done a, n)
  | .read k, n => settle now (k now n) n
  | .write s p, _ => settle now p s
  | .send dest m limit k, n => (.send dest m limit k, n)

/-- The number that the session service gives to a session that it accepts. -/
def granted? : Outcome → Option UInt32
  | .ok (some (.sessionHandshake2 id _)) => some id
  | _ => none

/-- A node takes up a job. -/
def Task.begin (now : Instant) (job : Job) (n : Node) : Task × Node :=
  (⟨job, job.link?.filter n.links.contains, (settle now job.program n).1⟩,
    (settle now job.program n).2)

/-- A task has an answer of the session service. -/
def Task.answered (t : Task) (k : Outcome → Program Node Unit) (o : Outcome) : Task where
  job := t.job
  number? := t.number?.or (if t.job.accepts then granted? o else none)
  rest := k o

/-- A task goes on: its message is answered, by the session service or with what comes of it
elsewhere, or it runs up to the next one. -/
def Task.go (now : Instant) (o : Outcome) (t : Task) (n : Node) : Task × Node :=
  match t.rest with
  | .send dest m _ k =>
    if dest = n.sessionService then
      (t.answered k (ownExchange now m n.registry).1,
        { n with registry := (ownExchange now m n.registry).2 })
    else ({ t with rest := k o }, n)
  | p => ({ t with rest := (settle now p n).1 }, (settle now p n).2)

/-- A node with what it has under way. -/
structure Scene where
  node : Node
  tasks : List Task
  /-- The session that was last accepted for a link with a number. -/
  accepted : UInt32 → Option Session

namespace Scene

variable {S : Scene} {t : Task} {now : Instant}

/-- A node that has nothing under way. -/
def idle (n : Node) : Scene := ⟨n, [], fun _ => none⟩

/-- What can happen next. -/
inductive Move where
  | begin (now : Instant) (job : Job)
  | go (now : Instant) (i : Nat) (o : Outcome)
  | request (now : Instant) (m : Message)
  | expire (now : Instant) (limit : Duration)

/-- A task has gone on. If the session service has given it a number, the session of that number is
the one that was accepted. -/
def gone (S : Scene) (i : Nat) (t t' : Task) (n : Node) : Scene where
  node := n
  tasks := S.tasks.set i t'
  accepted :=
    match t.number?, t'.number? with
    | none, some id => Function.update S.accepted id (n.registry.holdings id)
    | _, _ => S.accepted

/-- The scene after a move. -/
def step (S : Scene) : Move → Scene
  | .begin now job =>
    { S with node := (Task.begin now job S.node).2
             tasks := (Task.begin now job S.node).1 :: S.tasks }
  | .go now i o =>
    match S.tasks[i]? with
    | none => S
    | some t => S.gone i t (t.go now o S.node).1 (t.go now o S.node).2
  | .request now m =>
    { S with node := { S.node with registry := (S.node.registry.handle now m).2 } }
  | .expire now limit =>
    { S with node := { S.node with registry := S.node.registry.expire now limit } }

/-- One scene goes on to another by moves that keep to a rule. -/
inductive Reaches (R : Scene → Scene → Prop) (S₀ : Scene) : Scene → Prop
  | start : Reaches R S₀ S₀
  | move {S : Scene} (h : Reaches R S₀ S) (m : Move) (hm : R S (S.step m)) : Reaches R S₀ (S.step m)

/-- A number is that of a link, or of one that a task is about. -/
def Engaged (S : Scene) (id : UInt32) : Prop :=
  S.node.links.contains id = true ∨ ∃ t ∈ S.tasks, t.ended = false ∧ t.number? = some id

/-- No session comes in under a number that is engaged. -/
def Spares (S S' : Scene) : Prop :=
  ∀ id, S.Engaged id → S.node.registry.holdings id = none → S'.node.registry.holdings id = none

/-! ### Moves of a task -/

theorem gone_of_number {t' : Task} {n' : Node} (i : Nat) (h : t'.number? = t.number?) :
    S.gone i t t' n' = ⟨n', S.tasks.set i t', S.accepted⟩ := by
  unfold gone
  rw [h]
  cases t.number? <;> rfl

section Going
variable {i : Nat} {o : Outcome} {dest : Address} {m : Message} {limit : Option Duration}
  {k : Outcome → Program Node Unit}

theorem step_go (ht : S.tasks[i]? = some t) :
    S.step (.go now i o) = S.gone i t (t.go now o S.node).1 (t.go now o S.node).2 := by
  simp only [step, ht]

theorem step_go_settle (ht : S.tasks[i]? = some t)
    (hrun : ∀ dest m limit k, t.rest ≠ .send dest m limit k) :
    S.step (.go now i o) = ⟨(settle now t.rest S.node).2,
      S.tasks.set i { t with rest := (settle now t.rest S.node).1 }, S.accepted⟩ := by
  have hgo : t.go now o S.node =
      ({ t with rest := (settle now t.rest S.node).1 }, (settle now t.rest S.node).2) := by
    obtain ⟨job, number?, rest⟩ := t
    cases rest with
    | send dest m limit k => exact (hrun dest m limit k rfl).elim
    | _ => rfl
  rw [step_go ht, hgo]
  exact gone_of_number i rfl

theorem step_go_answered (ht : S.tasks[i]? = some t)
    (hrest : t.rest = .send S.node.sessionService m limit k) :
    S.step (.go now i o) = S.gone i t (t.answered k (ownExchange now m S.node.registry).1)
      { S.node with registry := (ownExchange now m S.node.registry).2 } := by
  rw [step_go ht, Task.go, hrest]
  simp only [if_true]

theorem step_go_other (ht : S.tasks[i]? = some t) (hrest : t.rest = .send dest m limit k)
    (hother : dest ≠ S.node.sessionService) :
    S.step (.go now i o) = ⟨S.node, S.tasks.set i { t with rest := k o }, S.accepted⟩ := by
  rw [step_go ht, Task.go, hrest]
  simp only [if_neg hother]
  exact gone_of_number i rfl

theorem ended_of_sends (h : t.rest = .send dest m limit k) : t.ended = false := by
  rw [Task.ended, h]

end Going

theorem Reaches.mono {R R' : Scene → Scene → Prop} {S₀ : Scene} (h : Reaches R S₀ S)
    (hR : ∀ S S', R S S' → R' S S') : Reaches R' S₀ S := by
  induction h with
  | start => exact .start
  | move _ m hm ih => exact ih.move m (hR _ _ hm)

end Scene

/-! ### Programs between messages -/

/-- Up to its next message, a program that tends links has tended them, and it tends them from there
on. -/
theorem Tends.settle {p : Program Node α} (hp : Tends a D N Q n p) (now : Instant) :
    (∀ n', n'.sessionService = a → Tends a D N Q n' (settle now p n).1) ∧
      Tended N n (settle now p n).2 := by
  induction hp with
  | done hc => exact ⟨fun _ _ => .done hc, .refl N _⟩
  | read _ ih => exact ih now
  | write hs _ ih => exact ⟨ih.1, hs.trans ih.2⟩
  | send hd h _ => exact ⟨fun _ _ => .send hd h, .refl N _⟩

theorem Tends.quietly {p : Program Node α} (hn : n.sessionService = a) (hp : Tends a D N Q n p) :
    Tends a D N (fun _ => True) n (quietly p) :=
  Tends.bind hn hp fun _ _ _ _ => .done trivial

/-! ### Jobs -/

/-- What is sent for a link is about the link, and it is sent only if the link is there. -/
def Faithfully (n : Node) (job : Job) (dest : Address) (m : Message) : Prop :=
  ∀ id, job.link? = some id →
    Serves n.sessionService id (fun _ => True) dest m ∧ n.links.contains id = true

theorem contains_of_get? {link : Link} (h : n.links.get? id = some link) :
    n.links.contains id = true := by
  rw [Table.contains, h]
  rfl

theorem tends_handleCell (data : Bytes)
    (hD : ∀ dest m, n.links.contains id = true → Serves a id (fun _ => True) dest m → D dest m)
    (hn : n.sessionService = a) : ActsTending a D N (fun _ => True) n (handleCell id data) := by
  apply ActsTending.get
  obtain hlink | ⟨link, hlink⟩ := Option.eq_none_or_eq_some (n.links.get? id)
  · rw [hlink]
    exact ActsTending.throw _
  · rw [hlink]
    have hthere := contains_of_get? hlink
    have hpeers : ∀ dest, Peering D dest := fun dest =>
      (peering_serves trivial).mono fun m => hD dest m hthere
    have hpeel : ActsWithin a D (fun _ => True) (decryptLayers [id] data) :=
      within_decryptLayers fun number => hD _ _ hthere (.inl ⟨rfl, .peel number data⟩)
    refine ActsTending.bind hn (hpeel.tends hn) fun text n' hn' _ => ?_
    apply tends_answerCell hn'
    · exact fun next _ => hpeers next.address
    · exact fun _ nextHop _ _ => hpeers nextHop
    · exact fun number reply => hD _ _ hthere (.inl ⟨rfl, .wrap number reply⟩)

theorem tends_handleDestroy
    (hD : ∀ dest m, n.links.contains id = true → Serves a id (fun _ => True) dest m → D dest m)
    (hn : n.sessionService = a) : Tends a D N (fun _ => True) n (handleDestroy id) := by
  apply Tends.get
  obtain hlink | ⟨link, hlink⟩ := Option.eq_none_or_eq_some (n.links.get? id)
  · rw [hlink]
    exact .done trivial
  · rw [hlink]
    have hthere := contains_of_get? hlink
    apply tends_drop hn
    · exact hD _ _ hthere (.inl ⟨rfl, .close⟩)
    · exact fun next _ => (peering_serves trivial).mono fun m => hD next.address m hthere

/-- A job that offers no session adds no link. -/
theorem Job.tends {job : Job} (haccepts : job.accepts = false) (n : Node) :
    Tends n.sessionService (Faithfully n job) (fun _ _ => False) (fun _ => True) n job.program := by
  have hlink : ∀ {id}, job.link? = some id → ∀ dest m, n.links.contains id = true →
      Serves n.sessionService id (fun _ => True) dest m → Faithfully n job dest m := by
    intro id hid dest m hthere hserves id' hid'
    obtain rfl := Option.some.inj (hid.symm.trans hid')
    exact ⟨hserves, hthere⟩
  have hany : job.link? = none → ∀ dest m, Faithfully n job dest m := by
    intro hnone dest m id hid
    cases hnone.symm.trans hid
  have hpeers : job.link? = none → ∀ dest, Peering (Faithfully n job) dest :=
    fun hnone dest => .of_all (hany hnone dest)
  cases job with
  | peer m =>
    refine Tends.quietly (Q := fun _ => True) rfl ?_
    cases m with
    | incomingHandshake1 => cases haccepts
    | tunnelData id data =>
      refine Tends.bind rfl (tends_handleCell data (hlink rfl) rfl) fun res n' hn' _ => ?_
      cases res <;> exact .done trivial
    | tunnelDestroy id =>
      exact Tends.bind rfl (tends_handleDestroy (hlink rfl) rfl) fun _ _ _ _ => .done trivial
    | _ => exact .done trivial
  | client m =>
    have hwithin := within_answerClients (hany rfl n.sessionService) (hpeers rfl)
      (fun dest => hany rfl dest _) m
    exact Tends.quietly rfl (hwithin.tends rfl)
  | build mode hops =>
    have hwithin := @within_build _ _ mode hops (hany rfl n.sessionService) fun x _ => hpeers rfl x
    exact Tends.quietly rfl (hwithin.tends rfl)
  | send tunnel payload =>
    have hwithin := within_send (hany rfl n.sessionService) (hpeers rfl) tunnel payload
    exact Tends.quietly rfl (hwithin.tends rfl)
  | receive tunnel layered =>
    have hwithin := within_receive (hany rfl n.sessionService) tunnel layered
    exact Tends.quietly rfl (hwithin.tends rfl)
  | teardown tunnel =>
    have hwithin := within_teardown (hany rfl n.sessionService) (hpeers rfl) tunnel
    exact Tends.quietly rfl (hwithin.tends rfl)

/-- A node that is offered a session asks its session service at once. If a number comes back, the
link that is added has it. -/
theorem settle_offer (now : Instant) (hostkey handshake : Bytes) (n : Node) : ∃ k,
    settle now (Job.peer (.incomingHandshake1 hostkey handshake)).program n =
      (.send n.sessionService (.incomingHandshake1 hostkey handshake) none k, n) ∧
    ∀ o n', n'.sessionService = a → Tends a (fun _ _ => False)
      (fun id peer => granted? o = some id ∧ peer = .ofHostkey hostkey) (fun _ => True) n'
      (k o) := by
  refine ⟨_, rfl, ?_⟩
  intro o n' hn'
  obtain e | _ | reply := o
  · exact .done trivial
  · exact .done trivial
  · cases reply with
    | sessionHandshake2 id returned =>
      have hadd := @tends_addLink n' a (fun _ _ => False)
        (fun id' peer => granted? (.ok (some (.sessionHandshake2 id returned))) = some id' ∧
          peer = .ofHostkey hostkey) id (.ofHostkey hostkey) hn' ⟨rfl, rfl⟩ returned
      refine Tends.quietly (Q := fun _ => True) hn' (Tends.bind hn' hadd ?_)
      rintro (e | c) n'' hn'' - <;> exact .done trivial
    | _ => exact .done trivial

theorem Job.offer_of_accepts {job : Job} (h : job.accepts = true) :
    ∃ hostkey handshake, job = .peer (.incomingHandshake1 hostkey handshake) := by
  cases job with
  | peer m =>
    cases m with
    | incomingHandshake1 hostkey handshake => exact ⟨hostkey, handshake, rfl⟩
    | _ => cases h
  | _ => cases h

end OnionTunnel.Node
