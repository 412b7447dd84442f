import OnionTunnel.Proofs.Network.Books
import OnionTunnel.Proofs.Session.Service

/-!
# Exchanges with services

In an honest setting nothing but services answers, and every node's session requests get to its own
registry. An exchange then comes to what the service's program leads to. What a node does through
given hops needs the second part, `Own`, and of the hops that nothing else answers in their place.
-/

namespace OnionTunnel

namespace Books

variable {n : Nat}

/-- The books with other sessions of a node. -/
def withSessions (b : Books n) (i : Fin n) (v : SessionRegistry.Holdings) : Books n :=
  Function.update b i { b i with session := v }

@[simp] theorem withSessions_self (b : Books n) (i : Fin n) :
    b.withSessions i (b i).session = b :=
  Function.update_eq_self i b

/-- The books with another session of a node. -/
def setSession (b : Books n) (i : Fin n) (id : UInt32) (s? : Option Session) : Books n :=
  b.withSessions i (Function.update (b i).session id s?)

end Books

namespace Network

variable {n : Nat} {α : Type}

/-- The service that answers at an address. -/
def Setting.serviceAt? (S : Setting n) (a : Address) : Option (ServiceOf n) :=
  match S.endpoints.get? a with
  | some (.service s) => some s
  | _ => none

/-- Nothing but services answers, and each node's session requests are answered by its own
registry. -/
structure Setting.Honest (S : Setting n) : Prop where
  services : ∀ a e, S.endpoints.get? a = some e → ∃ s, e = .service s
  own : ∀ i, S.serviceAt? (S.node i).sessionService = some ⟨i, .sessions⟩

/-- Each node's session requests are answered by its own registry. -/
def Setting.Own (S : Setting n) : Prop :=
  ∀ i, S.serviceAt? (S.node i).sessionService = some ⟨i, .sessions⟩

/-- If anything answers at an address, it is a service. -/
def Setting.Unscripted (S : Setting n) (a : Address) : Prop :=
  ∀ e, S.endpoints.get? a = some e → ∃ s, e = .service s

theorem Setting.endpoint_of_serviceAt? {S : Setting n} {a : Address} {s : ServiceOf n}
    (h : S.serviceAt? a = some s) : S.endpoints.get? a = some (.service s) := by
  unfold serviceAt? at h
  split at h
  · next heq => rw [heq, Option.some.inj h]
  · cases h

theorem Setting.unscripted_of_serviceAt? {S : Setting n} {a : Address} {s : ServiceOf n}
    (h : S.serviceAt? a = some s) : S.Unscripted a := by
  intro e he
  rw [endpoint_of_serviceAt? h] at he
  exact ⟨s, (Option.some.inj he).symm⟩

/-- What comes back of a reply. -/
def Outcome.ofReply : Option Message → Outcome
  | none => .ok none
  | some reply => reply.transmit.map some

end Network

namespace Node

open Network

/-- The reply that an exchange brings, or its error. -/
def ofOutcome : Outcome → Except TunnelError Message
  | .ok (some reply) => .ok reply
  | .ok none => .error (.connection .closed)
  | .error e => .error (.connection e)

/-- A reply as it gets back. -/
def received : Option Message → Except TunnelError Message
  | none => .error (.connection .closed)
  | some reply => reply.transmit.mapError .connection

theorem ofOutcome_ofReply (reply : Option Message) :
    ofOutcome (Outcome.ofReply reply) = received reply := by
  cases reply with
  | none => rfl
  | some reply =>
    show ofOutcome (reply.transmit.map some) = reply.transmit.mapError .connection
    cases reply.transmit <;> rfl

theorem received_of_transmit {reply arrived : Message} (h : reply.transmit = .ok arrived) :
    received (some reply) = .ok arrived := by
  rw [received, h]
  rfl

end Node

namespace Network

variable {n : Nat} {α : Type}

theorem exchange_succ (depth : Nat) (dest : Address) (m : Message) :
    (exchange (depth + 1) dest m : Activity n Outcome) =
      .read fun _ net =>
        match net.endpoints.get? dest with
        | none => .done (.error (.refused dest))
        | some e =>
          match m.transmit with
          | .error fault => .done (.error fault)
          | .ok arrived =>
            (answer (exchange depth) dest e arrived).bind fun reply =>
              .done (Outcome.ofReply reply) := by
  rw [exchange]
  refine congrArg Timed.read (funext fun _ => funext fun net => ?_)
  change (match net.endpoints.get? dest with
    | none => (.done (.error (.refused dest)) : Activity n Outcome)
    | some e => _) = _
  cases net.endpoints.get? dest with
  | none => rfl
  | some e =>
    cases m.transmit with
    | error fault => rfl
    | ok arrived =>
      show (answer (exchange depth) dest e arrived).bind _ = _
      congr 1
      funext reply
      cases reply <;> rfl

section Exchanges
variable {S : Setting n} {V : Network n → Prop} {now : Instant} {depth : Nat} {i : Fin n}
  {b : Books n}

/-- Nobody answers at an address that is not registered. -/
theorem yields_unregistered {dest : Address} (hdest : S.Unscripted dest)
    (h : S.serviceAt? dest = none) (m : Message) :
    Yields S V now b (exchange (depth + 1) dest m) fun o b' => (∃ e, o = .error e) ∧ b' = b := by
  rintro net rfl rfl -
  have hnone : net.endpoints.get? dest = none := by
    cases he : net.endpoints.get? dest with
    | none => rfl
    | some e =>
      obtain ⟨s, rfl⟩ := hdest e he
      simp [Setting.serviceAt?, setting, he] at h
  refine ⟨.error (.refused dest), net, ?_, rfl, ⟨_, rfl⟩, rfl⟩
  rw [exchange_succ]
  refine .read ?_
  simp only [hnone]
  exact .done

/-- A message that is not written does not get anywhere. -/
theorem yields_unwritten (dest : Address) {m : Message} {e : FrameError}
    (h : m.transmit = .error e) :
    Yields S V now b (exchange (depth + 1) dest m) fun o b' => (∃ e, o = .error e) ∧ b' = b := by
  rintro net rfl rfl -
  rw [exchange_succ]
  cases hend : net.endpoints.get? dest with
  | none =>
    refine ⟨.error (.refused dest), net, .read ?_, rfl, ⟨_, rfl⟩, rfl⟩
    simp only [hend]
    exact .done
  | some endpoint =>
    refine ⟨.error e, net, .read ?_, rfl, ⟨_, rfl⟩, rfl⟩
    simp only [hend, h]
    exact .done

/-- A message to a service comes to what the service's program leads to. -/
theorem yields_service {dest : Address} {s : ServiceOf n} (hs : S.serviceAt? dest = some s)
    {m m' : Message} (hm : m.transmit = .ok m') {P : Option Message → Books n → Prop}
    (hanswer : Leads S V now depth s.owner b (Node.answer s.service m') P) :
    Yields S V now b (exchange (depth + 1) dest m) fun o b' =>
      ∃ reply, o = Outcome.ofReply reply ∧ P reply b' := by
  have hend := Setting.endpoint_of_serviceAt? hs
  rintro net rfl rfl hsees
  rw [exchange_succ] at hsees ⊢
  have hrest := hsees.2
  simp only [show net.endpoints.get? dest = _ from hend, hm] at hrest
  obtain ⟨reply, net', hends, hset, hP⟩ := hanswer net rfl rfl hrest.first
  refine ⟨Outcome.ofReply reply, net', ?_, hset, reply, rfl, hP⟩
  refine .read ?_
  simp only [show net.endpoints.get? dest = _ from hend, hm]
  exact hends.bind .done

/-- Session requests change the sessions of the node and nothing else. -/
theorem leads_sessions_of_seen {m : Message}
    {P : Option Message → SessionRegistry.Holdings → Prop}
    (h : ∀ net : Network n, net.setting = S → net.books = b → V net →
      SessionRegistry.Replies (S.node i).registry (net.node i).registry now m P) :
    Leads S V now depth i b (Node.answerSessions m) fun reply b' =>
      ∃ v, P reply v ∧ b' = b.withSessions i v := by
  refine Leads.clock (Leads.modifyGet_of_seen ?_)
  rintro net rfl rfl hseen
  obtain ⟨hreg, hP⟩ := h net rfl rfl hseen
  refine ⟨?_, _, hP, rfl⟩
  show Node.Setting.mk _ _ _ _ _ = Node.Setting.mk _ _ _ _ _
  rw [hreg]
  rfl

theorem leads_sessions {m : Message} {P : Option Message → SessionRegistry.Holdings → Prop}
    (h : SessionRegistry.Answers (S.node i).registry (b i).session now m P) :
    Leads S V now depth i b (Node.answerSessions m) fun reply b' =>
      ∃ v, P reply v ∧ b' = b.withSessions i v := by
  apply leads_sessions_of_seen
  rintro net rfl rfl -
  exact h _ rfl rfl

/-- A request comes to what the exchange comes to. -/
theorem does_request {limit : Option Duration} {dest : Address} {m : Message}
    {P : Outcome → Books n → Prop} (h : Yields S V now b (exchange depth dest m) P) :
    Does S V now depth i b (Node.request limit dest m) fun res b' =>
      ∃ o, P o b' ∧ res = Node.ofOutcome o := by
  apply Does.after (Leads.exchange h)
  rintro (e | _ | reply) b' hP
  · exact Does.throw ⟨_, hP, rfl⟩
  · exact Does.throw ⟨_, hP, rfl⟩
  · exact Does.pure ⟨_, hP, rfl⟩

/-- A session request of a node gets to its own registry. -/
theorem does_askSessions (hS : S.Own) {m m' : Message} (hm : m.transmit = .ok m')
    {P : Option Message → SessionRegistry.Holdings → Prop}
    (h : Leads S V now depth i b (Node.answerSessions m') fun reply b' =>
      ∃ v, P reply v ∧ b' = b.withSessions i v) :
    Does S V now (depth + 1) i b (Node.askSessions m) fun res b' =>
      ∃ reply v, P reply v ∧ b' = b.withSessions i v ∧ res = Node.received reply := by
  refine Does.get fun node hset hrow => ?_
  have hservice : node.sessionService = (S.node i).sessionService := by
    rw [← hset]
    rfl
  rw [hservice]
  refine (does_request (yields_service (hS i) hm h)).mono ?_
  rintro _ _ ⟨_, ⟨reply, rfl, v, hP, rfl⟩, rfl⟩
  exact ⟨reply, v, hP, rfl, Node.ofOutcome_ofReply reply⟩

/-- A session request that is not written is not answered. -/
theorem does_askSessions_unwritten {m : Message} {e : FrameError} (hm : m.transmit = .error e) :
    Does S V now (depth + 1) i b (Node.askSessions m) fun res b' =>
      (∃ e, res = .error e) ∧ b' = b := by
  refine Does.get fun node _ _ => ?_
  refine (does_request (yields_unwritten _ hm)).mono ?_
  rintro _ _ ⟨_, ⟨⟨e, rfl⟩, rfl⟩, rfl⟩
  exact ⟨⟨_, rfl⟩, rfl⟩

end Exchanges

end Network

end OnionTunnel
