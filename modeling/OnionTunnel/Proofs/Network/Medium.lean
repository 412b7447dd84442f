import OnionTunnel.Proofs.Network.Runs

/-!
# Media

A medium carries some messages only, and whoever sends another one over it is stuck. So an exchange
that comes to the same over a medium as without it has sent nothing else, neither at its two ends nor
at any node that it has led to.

What a node does through a tunnel is followed once without a medium and once over the medium that
carries frames: whenever it succeeds without, it succeeds over the medium, in the same way.
-/

namespace OnionTunnel

/-- The message can be written as a frame, and the frame is no longer than frames may be. -/
def Message.framed (m : Message) : Bool :=
  match m.encode with
  | .ok f => decide (f.length ≤ 65535)
  | .error _ => false

theorem Message.framed_iff {m : Message} :
    m.framed = true ↔ ∃ f, m.encode = .ok f ∧ f.length ≤ 65535 := by
  unfold framed
  cases m.encode <;> simp

/-- A message that gets to its reader is a frame. -/
theorem Message.framed_of_transmit {m m' : Message} (h : m.transmit = .ok m') :
    m.framed = true := by
  obtain ⟨f, hf⟩ := encode_of_transmit h
  have hfit := (fits_of_encode hf).1
  have hlength := length_of_encode hf
  simp only [maxPayload, maxFrame, headerLength] at hfit hlength
  exact framed_iff.2 ⟨f, hf, by omega⟩

/-! ### Programs that send nothing -/

namespace Program

variable {σ α β : Type}

/-- A program that sends nothing. -/
inductive Quiet {σ α : Type} : Program σ α → Prop
  | done (a : α) : Quiet (.done a)
  | read {k : Instant → σ → Program σ α} (h : ∀ now s, Quiet (k now s)) : Quiet (.read k)
  | write {s : σ} {p : Program σ α} (h : Quiet p) : Quiet (.write s p)

theorem Quiet.bind {p : Program σ α} {f : α → Program σ β} (hp : Quiet p) (hf : ∀ a, Quiet (f a)) :
    Quiet (p >>= f) := by
  show Quiet (p.bind f)
  induction hp with
  | done a => exact hf a
  | read _ ih => exact .read ih
  | write _ ih => exact .write ih

theorem Quiet.get : Quiet (MonadState.get : Program σ σ) := .read fun _ s => .done s

theorem Quiet.modifyGet (f : σ → α × σ) : Quiet (MonadStateOf.modifyGet f : Program σ α) :=
  .read fun _ s => .write (.done (f s).1)

end Program

namespace Node

open Program

theorem quiet_throw {α : Type} (e : TunnelError) : Quiet (throw e : Action α).run :=
  .done (Except.error e)

/-- One action after another. -/
theorem quiet_bind {α β : Type} {x : Action α} {f : α → Action β} (hx : Quiet x.run)
    (hf : ∀ a, Quiet (f a).run) : Quiet (x >>= f).run := by
  refine Quiet.bind hx ?_
  rintro (e | a)
  · exact .done _
  · exact hf a

theorem quiet_lift {α : Type} {p : Program Node α} (hp : Quiet p) : Quiet (liftM p : Action α).run :=
  Quiet.bind hp fun _ => .done _

/-- A look at the node's own state. -/
theorem quiet_get {α : Type} {f : Node → Action α} (h : ∀ node, Quiet (f node).run) :
    Quiet (MonadState.get >>= f).run :=
  .read fun _ node => h node

theorem quiet_tunnel (id : UInt32) : Quiet (tunnel id).run := by
  refine quiet_get fun node => ?_
  cases node.tunnels.get? id with
  | none => exact quiet_throw _
  | some t => exact .done _

theorem quiet_matching (expected actual : UInt16) (payload : Bytes) :
    Quiet (matching expected actual payload).run := by
  unfold matching
  split
  · exact .done _
  · exact quiet_throw _

theorem quiet_answerSessions (m : Message) : Quiet (answerSessions m) :=
  .read fun _ _ => Quiet.modifyGet _

theorem quiet_deliver (d : Delivery) : Quiet (deliver d).run := by
  refine quiet_get fun node => ?_
  obtain ⟨reply, sink⟩ := node.sink.deliver d
  refine quiet_bind (quiet_lift (Quiet.modifyGet _)) fun _ => ?_
  cases reply with
  | error e => exact quiet_throw _
  | ok reply => exact .done _

end Node

/-! ### Exchanges over a medium -/

namespace Network

variable {n : Nat} {α β : Type}

/-- Sends a message over a medium and brings the reply back over it. -/
def exchangeOver (carries : Message → Bool) : Nat → Sender n
  | 0, _, _ => .stuck
  | depth + 1, dest, m =>
    if carries m then do
      match (← Timed.look).endpoints.get? dest with
      | none => return .error (.refused dest)
      | some e =>
        match m.transmit with
        | .error fault => return .error fault
        | .ok arrived =>
          match ← answer (exchangeOver carries depth) dest e arrived with
          | none => return .ok none
          | some reply => if carries reply then return reply.transmit.map some else .stuck
    else .stuck

/-- Over a medium that carries everything, an exchange is what it is without one. -/
theorem exchangeOver_all (depth : Nat) :
    exchangeOver (n := n) (fun _ => true) depth = exchange depth := by
  induction depth with
  | zero => rfl
  | succ depth ih =>
      funext dest m
      simp only [exchangeOver, ih, if_true]
      rfl

/-- What a node does, with all that it sends followed over a medium. -/
def actOver (carries : Message → Bool) (i : Fin n) (p : Program Node α) : Activity n α := do
  perform (exchangeOver carries (← Timed.look).depth) i p

theorem actOver_all (i : Fin n) (p : Program Node α) : actOver (fun _ => true) i p = act i p := by
  simp only [actOver, act, exchangeOver_all]

section Ends
variable {sender : Sender n} {i : Fin n} {now : Instant} {net net' : Network n} {dest : Address}
  {m reply : Message}

/-- An action that succeeds after another one follows its success. -/
theorem ends_of_bind_ok {x : Node.Action α} {f : α → Node.Action β} {c : β}
    (h : (perform sender i (x >>= f).run).Ends now net (.ok c) net') :
    ∃ a net₁, (perform sender i x.run).Ends now net (.ok a) net₁ ∧
      (perform sender i (f a).run).Ends now net₁ (.ok c) net' := by
  have hseq : perform sender i (x >>= f).run = _ := perform_bind sender i x.run _
  rw [hseq] at h
  obtain ⟨res, net₁, hx, hf⟩ := h.bind_cases
  cases res with
  | error e => cases hf
  | ok a => exact ⟨a, net₁, hx, hf⟩

/-- What ends at once ends so under any limit, and under no limit otherwise. -/
theorem ends_limited_iff {limit : Option Duration} {p : Activity n Outcome} {o : Outcome} :
    (limited limit p).Ends now net o net' ↔ p.Ends now net o net' := by
  constructor
  · intro h
    cases limit with
    | none => exact h
    | some d =>
      obtain ⟨o?, net₁, hp, hdone⟩ := Timed.Ends.bind_cases h
      obtain ⟨o', rfl, hp'⟩ := hp.of_within
      cases hdone
      exact hp'
  · exact fun h => ends_limited h limit

theorem perform_request (limit : Option Duration) (dest : Address) (m : Message) :
    perform sender i (Node.request limit dest m).run =
      (limited limit (sender dest m)).bind fun o => .done (Node.ofOutcome o) := by
  show (limited limit (sender dest m)).bind _ = _
  congr 1
  funext o
  obtain _ | _ | _ := o <;> rfl

/-- A request succeeds exactly if the exchange brings a reply. -/
theorem ends_request_iff {limit : Option Duration} :
    (perform sender i (Node.request limit dest m).run).Ends now net (.ok reply) net' ↔
      (sender dest m).Ends now net (.ok (some reply)) net' := by
  rw [perform_request]
  constructor
  · intro h
    obtain ⟨o, net₁, ho, hdone⟩ := h.bind_cases
    have hreply : Node.ofOutcome o = .ok reply ∧ net₁ = net' := by
      generalize Node.ofOutcome o = res at hdone
      cases hdone
      exact ⟨rfl, rfl⟩
    obtain ⟨hreply, rfl⟩ := hreply
    obtain _ | _ | _ := o <;> cases hreply
    exact ends_limited_iff.1 ho
  · intro h
    exact (ends_limited_iff.2 h).bind .done

theorem ends_askPeer_iff :
    (perform sender i (Node.askPeer dest m).run).Ends now net (.ok reply) net' ↔
      (sender dest m).Ends now net (.ok (some reply)) net' := by
  constructor
  · intro h
    cases h with
    | read h => exact ends_request_iff.1 h
  · intro h
    exact .read (ends_request_iff.2 h)

theorem ends_askSessions_iff :
    (perform sender i (Node.askSessions m).run).Ends now net (.ok reply) net' ↔
      (sender (net.node i).sessionService m).Ends now net (.ok (some reply)) net' := by
  constructor
  · intro h
    cases h with
    | read h => exact ends_request_iff.1 h
  · intro h
    exact .read (ends_request_iff.2 h)

/-- A cell is answered exactly if the exchange brings a cell back. -/
theorem ends_sendCell_iff {link : UInt32} {cell blob : Bytes} :
    (perform sender i (Node.sendCell dest link cell).run).Ends now net (.ok blob) net' ↔
      ∃ back, (sender dest (.tunnelData link cell)).Ends now net (.ok (some (.tunnelData back blob)))
        net' := by
  constructor
  · intro h
    obtain ⟨reply, net₁, hreply, htaken⟩ := ends_of_bind_ok h
    have hcell : ∃ back, reply = .tunnelData back blob ∧ net₁ = net' := by
      cases reply
      case tunnelData back blob' =>
        cases htaken
        exact ⟨back, rfl, rfl⟩
      all_goals cases htaken
    obtain ⟨back, rfl, rfl⟩ := hcell
    exact ⟨back, ends_askPeer_iff.1 hreply⟩
  · rintro ⟨back, h⟩
    exact ends_bind_ok (ends_askPeer_iff.2 h) .done

/-- A hop that answers a cell with a cell has handled it. -/
theorem ends_answerCell_of_reply {link back : UInt32} {cell blob : Bytes} {answer : Message}
    (h : (perform sender i (Node.answer .peers (.tunnelData link cell))).Ends now net (some answer)
      net')
    (hreply : answer.transmit = .ok (.tunnelData back blob)) :
    ∃ blob', (perform sender i (Node.handleCell link cell).run).Ends now net (.ok blob') net' ∧
      answer = .tunnelData link blob' := by
  have hseq : perform sender i (Node.answer .peers (.tunnelData link cell)) = _ :=
    perform_bind sender i (Node.handleCell link cell).run _
  rw [hseq] at h
  obtain ⟨res, net₁, hhandled, hanswered⟩ := h.bind_cases
  cases res with
  | error e =>
    cases hanswered
    cases Message.transmit_ok hreply
  | ok blob' =>
    cases hanswered
    exact ⟨blob', hhandled, rfl⟩

theorem ends_answerCell {link : UInt32} {cell blob : Bytes}
    (h : (perform sender i (Node.handleCell link cell).run).Ends now net (.ok blob) net') :
    (perform sender i (Node.answer .peers (.tunnelData link cell))).Ends now net
      (some (.tunnelData link blob)) net' :=
  ends_perform_bind h .done

/-- A reply that an exchange with a service brings is what the service has answered. -/
theorem ends_exchange_of_reply {depth : Nat} {s : ServiceOf n}
    (hs : net.setting.serviceAt? dest = some s)
    (h : (exchange (depth + 1) dest m).Ends now net (.ok (some reply)) net') :
    ∃ arrived answer, m.transmit = .ok arrived ∧
      (perform (exchange depth) s.owner (Node.answer s.service arrived)).Ends now net (some answer)
        net' ∧
      answer.transmit = .ok reply := by
  have hend : net.endpoints.get? dest = some (.service s) := Setting.endpoint_of_serviceAt? hs
  rw [exchange_succ] at h
  cases h with
  | read h =>
    simp only [hend] at h
    cases hm : m.transmit with
    | error fault =>
      simp only [hm] at h
      cases h
    | ok arrived =>
      simp only [hm] at h
      obtain ⟨answer?, net₁, hanswer, hdone⟩ := h.bind_cases
      have hback : Outcome.ofReply answer? = .ok (some reply) ∧ net₁ = net' := by
        generalize Outcome.ofReply answer? = o at hdone
        cases hdone
        exact ⟨rfl, rfl⟩
      obtain ⟨hback, rfl⟩ := hback
      cases answer? with
      | none => cases hback
      | some answer =>
        refine ⟨arrived, answer, rfl, hanswer, ?_⟩
        simp only [Outcome.ofReply] at hback
        cases ht : answer.transmit with
        | error fault =>
          rw [ht] at hback
          cases hback
        | ok reply' =>
          rw [ht] at hback
          cases hback
          rfl

/-- What a service answers comes back over the medium that carries frames if it comes back. -/
theorem ends_exchangeOver {depth : Nat} {s : ServiceOf n} {arrived answer : Message}
    (hs : net.setting.serviceAt? dest = some s) (hm : m.transmit = .ok arrived)
    (hanswer : (perform (exchangeOver Message.framed depth) s.owner
      (Node.answer s.service arrived)).Ends now net (some answer) net')
    (hreply : answer.transmit = .ok reply) :
    (exchangeOver Message.framed (depth + 1) dest m).Ends now net (.ok (some reply)) net' := by
  have hend : net.endpoints.get? dest = some (.service s) := Setting.endpoint_of_serviceAt? hs
  rw [exchangeOver, if_pos (Message.framed_of_transmit hm)]
  refine .read ?_
  simp only [Timed.bind, hend, hm]
  refine hanswer.bind ?_
  simp only [Message.framed_of_transmit hreply, if_true, hreply]
  exact .done

end Ends

/-- It does not matter how a program that sends nothing would send. -/
theorem perform_of_quiet {p : Program Node α} (hp : p.Quiet) (sender sender' : Sender n)
    (i : Fin n) : perform sender i p = perform sender' i p := by
  induction hp with
  | done a => rfl
  | read _ ih => exact congrArg Timed.read (funext fun now => funext fun net => ih now _)
  | write _ ih => simp only [perform, ih]

/-! ### Success over the medium that carries frames -/

/-- Where an action succeeds at once in networks with these books, it does so over the medium that
carries frames. -/
def Passes (S : Setting n) (now : Instant) (depth : Nat) (i : Fin n) (b : Books n)
    (x : Node.Action α) : Prop :=
  ∀ net : Network n, net.setting = S → net.books = b → ∀ a net',
    (perform (exchange depth) i x.run).Ends now net (.ok a) net' →
    (perform (exchangeOver Message.framed depth) i x.run).Ends now net (.ok a) net'

section Passes
variable {S : Setting n} {now : Instant} {depth : Nat} {i : Fin n} {b : Books n}

theorem passes_of_quiet {x : Node.Action α} (h : x.run.Quiet) : Passes S now depth i b x := by
  intro net _ _ a net' hends
  rwa [perform_of_quiet h _ (exchange depth)]

/-- One action after another, of which it is known where the first one leads. -/
theorem Passes.bind {x : Node.Action α} {f : α → Node.Action β}
    {P : Except TunnelError α → Books n → Prop} (hx : Passes S now depth i b x)
    (hdoes : Does S (fun _ => True) now depth i b x P)
    (hf : ∀ a b', P (.ok a) b' → Passes S now depth i b' (f a)) :
    Passes S now depth i b (x >>= f) := by
  intro net hset hbooks c net' hends
  obtain ⟨a, net₁, hfirst, hrest⟩ := ends_of_bind_ok hends
  obtain ⟨_, _, hfirst', hset₁, hP⟩ := hdoes net hset hbooks
    (Timed.Sees.always (fun _ => trivial) _ _)
  obtain ⟨rfl, rfl⟩ := hfirst.unique hfirst'
  exact ends_bind_ok (hx net hset hbooks a _ hfirst) (hf a _ hP _ hset₁ rfl c net' hrest)

/-- An action that sends nothing after one that may. -/
theorem Passes.andThen {x : Node.Action α} {f : α → Node.Action β} (hx : Passes S now depth i b x)
    (hf : ∀ a, (f a).run.Quiet) : Passes S now depth i b (x >>= f) := by
  intro net hset hbooks c net' hends
  obtain ⟨a, net₁, hfirst, hrest⟩ := ends_of_bind_ok hends
  rw [perform_of_quiet (hf a) _ (exchangeOver Message.framed depth)] at hrest
  exact ends_bind_ok (hx net hset hbooks a _ hfirst) hrest

/-- A look at the node's own state. -/
theorem Passes.get {f : Node → Node.Action α}
    (h : ∀ node : Node, node.setting = S.node i → node.row = b i →
      Passes S now depth i b (f node)) :
    Passes S now depth i b (MonadState.get >>= f) := by
  rintro net rfl rfl a net' hends
  cases hends with
  | read hends => exact .read (h (net.node i) rfl rfl net rfl rfl a net' hends)

/-- A session request that succeeds is a frame, and so is the reply. -/
theorem passes_askSessions (hS : S.Own) (m : Message) :
    Passes S now (depth + 1) i b (Node.askSessions m) := by
  rintro net rfl rfl reply net' hends
  obtain ⟨arrived, answer, hm, hanswer, hreply⟩ :=
    ends_exchange_of_reply (hS i) (ends_askSessions_iff.1 hends)
  refine ends_askSessions_iff.2 (ends_exchangeOver (hS i) hm ?_ hreply)
  show Timed.Ends now (perform _ i (Node.answerSessions arrived)) _ _ _
  rw [perform_of_quiet (Node.quiet_answerSessions arrived) _ (exchange depth)]
  exact hanswer

/-- The numbers of requests are not on the books. -/
theorem passes_numbered {f : UInt16 → Node.Action α}
    (h : ∀ number, Passes S now depth i b (f number)) :
    Passes S now depth i b (Node.nextRequestId >>= f) := by
  refine Passes.bind (P := fun _ b' => b' = b)
    (passes_of_quiet (Node.quiet_lift (Program.Quiet.modifyGet _))) ?_ ?_
  · refine Does.lift (Leads.modifyGet ?_)
    intro node hset hrow
    exact ⟨hset, (congrArg (Function.update b i) hrow).trans (Function.update_eq_self i b)⟩
  · rintro number _ rfl
    exact h number

theorem passes_encryptLayers (hS : S.Own) (ids : List UInt32) (payload : Bytes) :
    Passes S now (depth + 1) i b (Node.encryptLayers ids payload) := by
  refine passes_numbered fun number => (passes_askSessions hS _).andThen ?_
  intro reply
  cases reply
  case layerEncrypted actual layered => exact Node.quiet_matching _ _ _
  all_goals exact Node.quiet_throw _

theorem passes_decryptLayers (hS : S.Own) (ids : List UInt32) (payload : Bytes) :
    Passes S now (depth + 1) i b (Node.decryptLayers ids payload) := by
  refine passes_numbered fun number => (passes_askSessions hS _).andThen ?_
  intro reply
  cases reply
  case layerDecrypted actual text => exact Node.quiet_matching _ _ _
  all_goals exact Node.quiet_throw _

/-- A cell that a peer answers with a cell is a frame, and so is all that it has led to. -/
theorem passes_sendCell_peers {dest : Address} {link : UInt32} {j : Fin n}
    (hdest : S.serviceAt? dest = some ⟨j, .peers⟩) {cell : Bytes}
    (h : Passes S now depth j b (Node.handleCell link cell)) :
    Passes S now (depth + 1) i b (Node.sendCell dest link cell) := by
  rintro net rfl rfl blob net' hends
  obtain ⟨back, hexchange⟩ := ends_sendCell_iff.1 hends
  obtain ⟨arrived, answer, hm, hanswer, hreply⟩ := ends_exchange_of_reply hdest hexchange
  obtain rfl : arrived = .tunnelData link cell := Message.transmit_ok hm
  refine ends_sendCell_iff.2 ⟨back, ends_exchangeOver hdest hm ?_ hreply⟩
  obtain ⟨blob', hhandled, rfl⟩ := ends_answerCell_of_reply hanswer hreply
  exact ends_answerCell (h net rfl rfl blob' net' hhandled)

/-- A hop's answer to a cell on one of its links succeeds over the medium if what it does with the
text inside does. -/
theorem passes_handleCell (hS : S.Own) {id : UInt32} {link : Link} {y : Session}
    (hlink : (b i).link id = some link) (hy : (b i).session id = some y) (husable : y.Usable)
    {cell inner : Bytes} (hcell : Sealed.Peels [y.inward] cell inner)
    {E : Except TunnelError Bytes → Books n → Prop}
    (hend : link.downstream? = none →
      Does S (fun _ => True) now (depth + 1) i b (Node.execute id link.peer inner) E ∧
        Passes S now (depth + 1) i b (Node.execute id link.peer inner))
    (hnext : ∀ next, link.downstream? = some next →
      Does S (fun _ => True) now (depth + 1) i b (Node.sendCell next.address next.link inner) E ∧
        Passes S now (depth + 1) i b (Node.sendCell next.address next.link inner)) :
    Passes S now (depth + 1) i b (Node.handleCell id cell) := by
  refine Passes.get fun node _ hrow => ?_
  have hget : node.links.get? id = some link := by
    rw [← hlink, ← hrow]
    rfl
  simp only [hget]
  have hsession : [id].map (b i).session = [y].map some := by simp [hy]
  refine (passes_decryptLayers hS [id] cell).bind
    (does_decryptLayers hS hsession (by simpa using husable) cell) ?_
  rintro _ _ ⟨⟨text, ⟨⟩, htext, -⟩ | ⟨⟨_, ⟨⟩⟩, _⟩, rfl⟩
  obtain rfl := hcell.unique htext
  cases hdown : link.downstream? with
  | none =>
    obtain ⟨hdoes, hpasses⟩ := hend hdown
    exact hpasses.bind hdoes fun _ _ _ => passes_encryptLayers hS _ _
  | some next =>
    obtain ⟨hdoes, hpasses⟩ := hnext next hdown
    exact hpasses.bind hdoes fun _ _ _ => passes_encryptLayers hS _ _

/-- An action that is known to fail does not have to be followed. -/
theorem passes_of_error {x : Node.Action α}
    (h : Does S (fun _ => True) now depth i b x fun res _ => ∃ e, res = .error e) :
    Passes S now depth i b x := by
  intro net hset hbooks a net' hends
  obtain ⟨_, _, hends', -, e, rfl⟩ := h net hset hbooks (Timed.Sees.always (fun _ => trivial) _ _)
  obtain ⟨⟨⟩, -⟩ := hends.unique hends'

open Sealed in
/-- A cell goes through a route over the medium if what the last hop does succeeds over it. -/
theorem passes_sendCell_route (hS : S.Own) {owner : Fin n} {peer : Identity} {l : Leg n}
    {rest : List (Leg n)} (hlinked : Linked S b peer (l :: rest))
    (hheld : ∀ l' ∈ l :: rest, ∀ f, l'.far? = some f → FarHeld S b owner l' f)
    {cell command : Bytes} (hcell : Peels (onward (l :: rest)) cell command)
    (hfit : 4 + 4 + cell.length ≤ maxPayload) {E : Except TunnelError Bytes → Books n → Prop}
    (hdone : ∀ l' f, (l :: rest).getLast? = some l' → l'.far? = some f →
      Does S (fun _ => True) now (depth + 1) f.node b (Node.execute l'.hop.link peer command) E ∧
        Passes S now (depth + 1) f.node b (Node.execute l'.hop.link peer command))
    (hlost : ∀ l', (l :: rest).getLast? = some l' → l'.far? = none → ∀ e, E (.error e) b)
    (hkeep : ∀ l' ∈ l :: rest, ∀ f, l'.far? = some f → ∀ res b', E res b' →
      (b' f.node).session l'.hop.link = some f.session) :
    Passes S now (depth + 1 + (l :: rest).length) i b
      (Node.sendCell l.dialled l.hop.link cell) := by
  -- Along the route, as the cell goes: what comes after a hop is followed before the hop itself.
  induction rest generalizing i l cell with
  | nil =>
      have hreached := hlinked.1
      unfold Reached at hreached
      cases hfar : l.far? with
      | none =>
        simp only [hfar] at hreached
        obtain ⟨-, j, hdest⟩ := hreached
        exact passes_of_error ((does_sendCell_sessions hdest _ cell).mono fun _ _ h => h.1)
      | some f =>
        simp only [hfar] at hreached
        have hf := hheld l (by simp) f hfar
        rw [onward, List.map_singleton, hf.paired.forth] at hcell
        refine passes_sendCell_peers hreached.1 (passes_handleCell hS hreached.2 hf.accepted
          hf.usable hcell (fun _ => hdone l f rfl hfar) ?_)
        rintro _ ⟨⟩
  | cons l' rest ih =>
      have hreached := hlinked.1
      unfold Reached at hreached
      cases hfar : l.far? with
      | none => simp [hfar] at hreached
      | some f =>
        simp only [hfar] at hreached
        have hf := hheld l (by simp) f hfar
        obtain ⟨inner, hinner, hrest⟩ := hcell
        have hlen := Sealed.length_unwrap hinner
        have hpeel : Peels [f.session.inward] cell inner := by
          rw [← hf.paired.forth]
          exact ⟨inner, hinner, rfl⟩
        have hheld' : ∀ l'' ∈ l' :: rest, ∀ f', l''.far? = some f' → FarHeld S b owner l'' f' :=
          fun l'' hl'' => hheld l'' (List.mem_cons_of_mem l hl'')
        have hkeep' : ∀ l'' ∈ l' :: rest, ∀ f', l''.far? = some f' → ∀ res b', E res b' →
            (b' f'.node).session l''.hop.link = some f'.session :=
          fun l'' hl'' => hkeep l'' (List.mem_cons_of_mem l hl'')
        have hdoes := does_sendCell_route (i := f.node) hS hlinked.2 hheld' hrest (by omega)
          (fun l'' f' hl'' hf' => (hdone l'' f' hl'' hf').1) hlost hkeep'
        have hpasses := ih (i := f.node) hlinked.2 hheld' hrest (by omega) hdone hlost hkeep'
        refine passes_sendCell_peers hreached.1 (passes_handleCell
          (E := Layered (homeward (l' :: rest)) E) hS hreached.2 hf.accepted hf.usable hpeel
          (fun hnone => by cases hnone) ?_)
        rintro _ ⟨⟩
        exact ⟨hdoes, hpasses⟩

/-- What the last hop of a route does with a payload sends nothing. -/
theorem passes_execute {command payload : Bytes} {link : UInt32} {peer : Identity}
    (hcommand : (Message.tunnelData Node.endLink payload).encode = .ok command) :
    Passes S now depth i b (Node.execute link peer command) := by
  have hdecoded := Message.decode_canonical hcommand (by simp [Message.Blank])
  apply passes_of_quiet
  unfold Node.execute
  rw [hdecoded]
  exact Node.quiet_deliver _

/-- A payload that the owner has sent through a route has gone over the medium. -/
theorem passes_sendLayered (hS : S.Own) {l : Leg n} {rest : List (Leg n)}
    (hroute : Route S b i (l :: rest)) {payload command : Bytes}
    (hcommand : (Message.tunnelData Node.endLink payload).encode = .ok command) :
    Passes S now (depth + 1 + (l :: rest).length) i b
      (Node.encryptLayers (relayOrder ((l :: rest).map (·.hop))) command >>=
        Node.sendCell l.hop.address l.hop.link) := by
  have hdone : Done S (fun _ => True) now (depth + 1) b i (l :: rest) command _ :=
    done_payload hroute hcommand
  have hkeys : (((l :: rest).map (·.near)).reverse.map Session.outward).reverse =
      onward (l :: rest) := by
    rw [List.map_reverse, List.reverse_reverse, List.map_map]
    rfl
  have hdepth : depth + 1 + (l :: rest).length = depth + rest.length + 2 := by
    rw [List.length_cons]
    omega
  rw [hdepth]
  refine (passes_encryptLayers hS _ command).bind (does_encryptLayers hS
    (sessions_of_held hroute.near) (usable_of_held hroute.near) command) ?_
  rintro cell _ ⟨⟨_, ⟨⟩, hpeels, -⟩ | ⟨⟨_, ⟨⟩⟩, _⟩, rfl⟩
  rw [hkeys] at hpeels
  rw [← hroute.first l rfl]
  by_cases hcell : 4 + 4 + cell.length ≤ maxPayload
  · rw [← hdepth]
    refine passes_sendCell_route hS hroute.linked (fun l' hl' => (hroute.held l' hl').far) hpeels
      hcell (fun l' f hl' hf => ⟨hdone.done l' f hl' hf, passes_execute hcommand⟩) hdone.lost ?_
    intro l' hl' f hf res b' hdelivered
    exact ((hdone.kept res b' hdelivered l' hl').far f hf).accepted
  · exact passes_of_error ((does_sendCell_long hS hroute hcell).mono fun _ _ h => h.1)

/-- An exchange of data through a route that succeeds has gone over the medium that carries
frames. -/
theorem passes_exchangeData (hS : S.Own) (hdepth : 260 ≤ depth) {id : UInt32} {t : Tunnel}
    {legs : List (Leg n)} (hready : (b i).slot id = some (.ready t))
    (hlayers : t.layers = relayOrder t.hops) (hhops : t.hops = legs.map (·.hop)) (hne : legs ≠ [])
    (hshort : legs.length ≤ 256) (hroute : Route S b i legs) (payload : Bytes) :
    Passes S now depth i b (Node.exchangeData id payload) := by
  obtain ⟨l, rest, rfl⟩ := List.exists_cons_of_ne_nil hne
  have hfirst : t.first? = some l.hop := by
    rw [Tunnel.first?, hhops]
    rfl
  have htunnel : ∀ b' : Books n, Passes S now depth i b' (Node.tunnel id) :=
    fun _ => passes_of_quiet (Node.quiet_tunnel id)
  have hsend : Passes S now depth i b (Node.send id payload) := by
    refine (htunnel b).bind (does_tunnel hready) ?_
    rintro _ _ ⟨⟨⟩, rfl⟩
    rw [hlayers, hhops]
    simp only [hfirst]
    cases hcommand : (Message.tunnelData Node.endLink payload).encode with
    | error e => exact passes_of_error (does_ofFrame_error rfl ⟨_, rfl⟩)
    | ok command =>
      obtain ⟨d, rfl⟩ : ∃ d, depth = d + 1 + (l :: rest).length :=
        ⟨depth - 1 - (l :: rest).length, by omega⟩
      exact passes_sendLayered hS hroute hcommand
  refine hsend.bind (does_send hS hdepth hready hlayers hhops hne hshort hroute payload) ?_
  intro blob b' hwent
  have hready' : (b' i).slot id = some (.ready t) := (congrFun (hwent.kept i).2.2 id).trans hready
  refine (htunnel b').bind (does_tunnel hready') ?_
  rintro _ _ -
  obtain ⟨d, rfl⟩ : ∃ d, depth = d + 1 := ⟨depth - 1, by omega⟩
  exact passes_decryptLayers hS _ blob

end Passes

end Network

end OnionTunnel
