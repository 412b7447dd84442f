import OnionTunnel.Proofs.Node.Requests
import OnionTunnel.Proofs.Session.Lifecycle

/-!
# What a node still has

A node changes its tunnels, its links and its own directory by itself, and only where it says so. Its
sessions are its session service's, which it reaches by messages, as it may reach it by an address
that is given for a hop. Of all messages only one has a session closed. A program that does not send
it and only looks at the node otherwise leaves the node with all that it had.

There is one lemma a function, down to the handshake that reaches a hop.
-/

namespace OnionTunnel

theorem Message.eq_sessionClose_of_canonical {m : Message} {id : UInt32}
    (h : m.canonical = .sessionClose id) : m = .sessionClose id := by
  cases m with
  | sessionClose session => exact h
  | _ => cases h

namespace Node

open SessionRegistry

variable {α β : Type} {n n' n'' : Node} {m : Message} {id : UInt32} {closed : List UInt32}
  {r : SessionRegistry}

/-- A node still has its tunnels, its links, its directory, and a session wherever it had one, but
for some numbers. -/
structure Retains (closed : List UInt32) (n n' : Node) : Prop where
  own : n'.ownDirectory? = n.ownDirectory?
  tunnels : n'.tunnels = n.tunnels
  links : n'.links = n.links
  held : ∀ id, id ∉ closed → n.registry.holdings id ≠ none → n'.registry.holdings id ≠ none

theorem Retains.refl (closed : List UInt32) (n : Node) : Retains closed n n :=
  ⟨rfl, rfl, rfl, fun _ _ h => h⟩

theorem Retains.trans (h : Retains closed n n') (h' : Retains closed n' n'') :
    Retains closed n n'' where
  own := h'.own.trans h.own
  tunnels := h'.tunnels.trans h.tunnels
  links := h'.links.trans h.links
  held id hid hx := h'.held id hid (h.held id hid hx)

theorem Retains.directory_eq (h : Retains closed n n') (hown : n.ownDirectory?.isSome = true) :
    n'.directory = n.directory := by
  obtain ⟨d, hd⟩ := Option.isSome_iff_exists.1 hown
  unfold directory
  rw [h.own, hd]
  rfl

/-- A message to the session service leaves a session in, unless it is to close it. -/
theorem ownExchange_stays (now : Instant) (hm : m ≠ .sessionClose id)
    (hx : r.holdings id ≠ none) : (ownExchange now m r).2.holdings id ≠ none := by
  obtain ⟨e, he⟩ | hok := m.transmit_cases
  · simpa only [ownExchange, he] using hx
  · simp only [ownExchange, hok]
    exact handle_stays now (fun h => hm (Message.eq_sessionClose_of_canonical h)) hx

/-! ### Rules -/

/-- Whatever others do, a node that follows a program still has what it had. -/
def Retaining (p : Program Node α) : Prop := ∀ n, Comes n p fun _ _ n' => Retains [] n n'

/-- Whatever others do, a node that acts still has what it had, if it fails too. -/
def ActsRetaining (x : Action α) : Prop := Retaining x.run

theorem Retaining.pure (a : α) : Retaining (Pure.pure a) := fun n => Comes.pure (.refl [] n)

theorem Retaining.bind {p : Program Node α} {f : α → Program Node β} (hp : Retaining p)
    (hf : ∀ a, Retaining (f a)) : Retaining (p >>= f) := by
  intro n
  refine Comes.bind (hp n) ?_
  intro t a n₁ h
  exact (hf a n₁).mono fun _ _ _ => h.trans

theorem Retaining.get {f : Node → Program Node β} (hf : ∀ n, Retaining (f n)) :
    Retaining (MonadState.get >>= f) := fun n => Comes.get (hf n n)

theorem Retaining.forM {γ : Type} {f : γ → Program Node PUnit} (hf : ∀ c, Retaining (f c))
    (cs : List γ) : Retaining (cs.forM f) := by
  induction cs with
  | nil => exact Retaining.pure _
  | cons c cs ih => exact (hf c).bind fun _ => ih

theorem ActsRetaining.pure (a : α) : ActsRetaining (Pure.pure a) := Retaining.pure _

theorem ActsRetaining.throw (e : TunnelError) : ActsRetaining (throw e : Action α) :=
  Retaining.pure _

theorem ActsRetaining.bind {x : Action α} {f : α → Action β} (hx : ActsRetaining x)
    (hf : ∀ a, ActsRetaining (f a)) : ActsRetaining (x >>= f) := by
  refine Retaining.bind hx ?_
  rintro (e | a)
  · exact Retaining.pure _
  · exact hf a

theorem ActsRetaining.get {f : Node → Action β} (hf : ∀ n, ActsRetaining (f n)) :
    ActsRetaining (MonadState.get >>= f) := fun n => Acts.get (hf n n)

/-! ### Messages -/

section Messages
variable {dest : Address}

/-- A message to anybody may have a session closed. -/
theorem comes_exchange (limit : Option Duration) (dest : Address)
    (hm : ∀ id, id ∉ closed → m ≠ .sessionClose id) :
    Comes n (Program.exchange limit dest m) fun _ _ n' => Retains closed n n' := by
  by_cases hdest : dest = n.sessionService
  · subst hdest
    apply Comes.ask
    intro now
    exact ⟨rfl, rfl, rfl, fun id hid hx => ownExchange_stays now (hm id hid) hx⟩
  · exact Comes.send hdest fun _ => .refl closed n

theorem retaining_exchange (limit : Option Duration) (dest : Address)
    (hm : ∀ id, m ≠ .sessionClose id) : Retaining (Program.exchange limit dest m) :=
  fun _ => comes_exchange limit dest fun id _ => hm id

theorem retaining_request (limit : Option Duration) (dest : Address)
    (hm : ∀ id, m ≠ .sessionClose id) : ActsRetaining (request limit dest m) := by
  intro n
  refine (Acts.request (retaining_exchange limit dest hm n)).mono ?_
  rintro t res n' ⟨o, h, -⟩
  exact h

theorem retaining_askSessions (hm : ∀ id, m ≠ .sessionClose id) : ActsRetaining (askSessions m) :=
  .get fun n => retaining_request none n.sessionService hm

theorem retaining_askPeer (dest : Address) (hm : ∀ id, m ≠ .sessionClose id) :
    ActsRetaining (askPeer dest m) :=
  .get fun n => retaining_request (some n.rules.timeout) dest hm

theorem retaining_ofFrame (a? : Except FrameError α) : ActsRetaining (ofFrame a?) := by
  cases a? with
  | ok a => exact .pure a
  | error e => exact .throw _

/-! ### Sessions -/

theorem retaining_startSession (hostkey : Bytes) : ActsRetaining (startSession hostkey) := by
  refine (retaining_askSessions (by simp)).bind fun reply => ?_
  split
  · exact .pure _
  · exact .throw _

theorem retaining_acceptSession (hostkey handshake : Bytes) :
    ActsRetaining (acceptSession hostkey handshake) := by
  refine (retaining_askSessions (by simp)).bind fun reply => ?_
  split
  · exact .pure _
  · exact .throw _

theorem retaining_confirmSession (id : UInt32) (handshake : Bytes) :
    ActsRetaining (confirmSession id handshake) := by
  refine (retaining_askSessions (by simp)).bind fun reply => ?_
  split
  · exact .pure _
  · exact .throw _

theorem retaining_nextRequestId : ActsRetaining nextRequestId := by
  intro n
  have hnumber : Acts n (nextRequestId >>= Pure.pure) fun _ _ n' => Retains [] n n' :=
    Acts.numbered (Acts.pure ⟨rfl, rfl, rfl, fun _ _ h => h⟩)
  rwa [bind_pure] at hnumber

theorem retaining_matching (expected actual : UInt16) (payload : Bytes) :
    ActsRetaining (matching expected actual payload) := by
  unfold matching
  split
  · exact .pure _
  · exact .throw _

theorem retaining_encryptLayers (ids : List UInt32) (payload : Bytes) :
    ActsRetaining (encryptLayers ids payload) := by
  refine retaining_nextRequestId.bind fun number => ?_
  refine (retaining_askSessions (by simp)).bind fun reply => ?_
  split
  · exact retaining_matching _ _ _
  · exact .throw _

theorem retaining_decryptLayers (ids : List UInt32) (payload : Bytes) :
    ActsRetaining (decryptLayers ids payload) := by
  refine retaining_nextRequestId.bind fun number => ?_
  refine (retaining_askSessions (by simp)).bind fun reply => ?_
  split
  · exact retaining_matching _ _ _
  · exact .throw _

/-! ### Peers -/

theorem retaining_returnedHandshake (m : Message) : ActsRetaining (returnedHandshake m) := by
  unfold returnedHandshake
  split
  · exact .pure _
  · exact .throw _

theorem retaining_deliverHandshake (dest : Address) (hostkey handshake : Bytes) :
    ActsRetaining (deliverHandshake dest hostkey handshake) :=
  (retaining_askPeer dest (by simp)).bind retaining_returnedHandshake

theorem retaining_sendCell (dest : Address) (link : UInt32) (data : Bytes) :
    ActsRetaining (sendCell dest link data) := by
  refine (retaining_askPeer dest (by simp)).bind fun reply => ?_
  split
  · exact .pure _
  · exact .throw _

theorem retaining_dropLink (dest : Address) (link : UInt32) : Retaining (dropLink dest link) :=
  .get fun n => (retaining_exchange (some n.rules.timeout) dest (by simp)).bind fun _ => .pure _

theorem retaining_relay (route : List OpenHop) (cell : Bytes) :
    ActsRetaining (relay route cell) := by
  unfold relay
  split
  · exact .throw _
  · refine (retaining_encryptLayers _ cell).bind fun layered => ?_
    exact (retaining_sendCell _ _ layered).bind fun reply => retaining_decryptLayers _ reply

/-- A hop is reached, or it is not, and the node still has what it had. -/
theorem retaining_reachHop (hop : Hop) (route : List OpenHop) (handshake : Bytes) :
    ActsRetaining (reachHop hop route handshake) := by
  refine .get fun n => ?_
  split
  · exact retaining_deliverHandshake _ _ _
  · refine (retaining_ofFrame _).bind fun incoming => ?_
    refine (retaining_ofFrame _).bind fun command => ?_
    refine (retaining_relay route command).bind fun reply => ?_
    exact (retaining_ofFrame _).bind retaining_returnedHandshake

end Messages

/-! ### Sessions that come and go -/

/-- A session that is started is new. -/
theorem acts_startSession_new (hostkey : Bytes) :
    Acts n (startSession hostkey) fun _ res n' => Retains [] n n' ∧
      ∀ id handshake, res = .ok (id, handshake) →
        n.registry.holdings id = none ∧ n'.registry.holdings id ≠ none := by
  intro t res n' hrun
  refine ⟨retaining_startSession hostkey n t res n' hrun, ?_⟩
  rintro id handshake rfl
  obtain ⟨-, ⟨_, _, x, ⟨⟩, hfree, -, hheld, -⟩ | ⟨⟨_, ⟨⟩⟩, -⟩⟩ :=
    acts_startSession hostkey t _ n' hrun
  exact ⟨get?_eq_none_iff.1 hfree, by simp [hheld]⟩

/-- A session that is accepted is new. -/
theorem acts_acceptSession_new (hostkey handshake : Bytes) :
    Acts n (acceptSession hostkey handshake) fun _ res n' => Retains [] n n' ∧
      ∀ id returned, res = .ok (id, returned) →
        n.registry.holdings id = none ∧ n'.registry.holdings id ≠ none := by
  have hnew : Acts n (acceptSession hostkey handshake) fun _ res n' => ∀ id returned,
      res = .ok (id, returned) → n.registry.holdings id = none ∧ n'.registry.holdings id ≠ none := by
    refine Acts.bind (P := fun _ res n' => ∀ id returned,
      res = .ok (.sessionHandshake2 id returned) →
        n.registry.holdings id = none ∧ n'.registry.holdings id ≠ none) ?_ ?_ ?_
    · refine (acts_askSessions rfl).mono ?_
      rintro t res n' ⟨-, ⟨⟨e, -, rfl⟩, -⟩ | ⟨now, rfl, rfl⟩⟩ id returned hres
      · cases hres
      · obtain ⟨-, ⟨_, _, y, hreply, hfree, hheld, -⟩ | ⟨hreply, -⟩⟩ :=
          (replies_incomingHandshake1 n.registry hostkey handshake : Replies _ _ now _ _)
        · rw [hreply] at hres
          obtain ⟨⟩ := eq_of_received hres
          refine ⟨hfree, ?_⟩
          rw [hheld, Function.update_self]
          exact nofun
        · rw [hreply] at hres
          cases eq_of_received hres
    · intro t reply n₁ h
      split
      · refine Acts.pure ?_
        rintro _ _ ⟨⟩
        exact h _ _ rfl
      · exact Acts.throw fun _ _ => nofun
    · intro t e n' _ _ _
      exact nofun
  exact fun t res n' hrun =>
    ⟨retaining_acceptSession hostkey handshake n t res n' hrun, hnew t res n' hrun⟩

/-- A session is closed. The node forgets it and still has all others. -/
theorem comes_closeSession_others (id : UInt32) :
    Comes n (closeSession id) fun _ _ n' =>
      Retains [id] (n.updateDirectory (·.forgetSession id)) n' := by
  apply Comes.change
  apply Comes.get
  apply Comes.notify
  apply comes_exchange
  rintro id' hid' ⟨⟩
  exact hid' List.mem_cons_self

end Node

end OnionTunnel
