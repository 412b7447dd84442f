import OnionTunnel.Proofs.Network.Medium
import OnionTunnel.Proofs.Node.Alone

/-!
# Cascades

Whoever answers a message may send messages on, and those who get them may do so again. A cascade
is all that comes of one program: what it ends with, the network then, and every message that any
node has sent on the way, in the order of sending. `Spreads` and `Tries` speak of the cascade of a
program and of an action by the books alone.

## Implementation notes

A cascade follows messages to a depth, as an exchange does, and it is finite by definition. Only
services are asked: at an address where a responder answers, there is no cascade.
-/

namespace OnionTunnel.Network

open SessionRegistry

/-- A message that a node has sent on the way, the service that it got to, and what came of it. -/
structure Posted (n : Nat) extends Sent where
  reached? : Option (ServiceOf n)

variable {n : Nat} {α β : Type}

/-- What comes of a node's program in a network, with all that is sent on the way. -/
inductive Cascade (now : Instant) :
    Nat → Fin n → {α : Type} → Program Node α → Network n → List (Posted n) → α → Network n → Prop
  | done {depth : Nat} {i : Fin n} {α : Type} {a : α} {net : Network n} :
      Cascade now depth i (.done a) net [] a net
  | read {depth : Nat} {i : Fin n} {α : Type} {k : Instant → Node → Program Node α}
      {net net' : Network n} {t : List (Posted n)} {a : α}
      (h : Cascade now depth i (k now (net.node i)) net t a net') :
      Cascade now depth i (.read k) net t a net'
  | write {depth : Nat} {i : Fin n} {α : Type} {node : Node} {p : Program Node α}
      {net net' : Network n} {t : List (Posted n)} {a : α}
      (h : Cascade now depth i p (net.setNode i node) t a net') :
      Cascade now depth i (.write node p) net t a net'
  | refused {depth : Nat} {i : Fin n} {α : Type} {dest : Address} {m : Message}
      {limit : Option Duration} {k : Outcome → Program Node α} {net net' : Network n}
      {t : List (Posted n)} {a : α} (hdest : net.endpoints.get? dest = none)
      (h : Cascade now (depth + 1) i (k (.error (.refused dest))) net t a net') :
      Cascade now (depth + 1) i (.send dest m limit k) net
        (⟨⟨dest, m, .error (.refused dest)⟩, none⟩ :: t) a net'
  | unwritten {depth : Nat} {i : Fin n} {α : Type} {dest : Address} {m : Message}
      {limit : Option Duration} {k : Outcome → Program Node α} {net net' : Network n}
      {t : List (Posted n)} {a : α} {e : Endpoint n} {fault : FrameError}
      (hdest : net.endpoints.get? dest = some e) (hm : m.transmit = .error fault)
      (h : Cascade now (depth + 1) i (k (.error fault)) net t a net') :
      Cascade now (depth + 1) i (.send dest m limit k) net
        (⟨⟨dest, m, .error fault⟩, none⟩ :: t) a net'
  | answered {depth : Nat} {i : Fin n} {α : Type} {dest : Address} {m arrived : Message}
      {limit : Option Duration} {k : Outcome → Program Node α} {net net₁ net' : Network n}
      {t₁ t : List (Posted n)} {a : α} {s : ServiceOf n} {reply : Option Message}
      (hdest : net.endpoints.get? dest = some (.service s)) (hm : m.transmit = .ok arrived)
      (hanswer : Cascade now depth s.owner (Node.answer s.service arrived) net t₁ reply net₁)
      (h : Cascade now (depth + 1) i (k (Outcome.ofReply reply)) net₁ t a net') :
      Cascade now (depth + 1) i (.send dest m limit k) net
        (⟨⟨dest, m, Outcome.ofReply reply⟩, some s⟩ :: (t₁ ++ t)) a net'

namespace Cascade

variable {now : Instant} {depth : Nat} {i : Fin n} {net net' : Network n} {t : List (Posted n)}

/-- A cascade is what the program comes to in the network, and at once. -/
theorem ends {p : Program Node α} {a : α} (h : Cascade now depth i p net t a net') :
    (perform (exchange depth) i p).Ends now net a net' := by
  induction h with
  | done => exact .done
  | read _ ih => exact .read ih
  | write _ ih => exact .read (.write ih)
  | refused hdest _ ih =>
      refine (ends_limited ?_ _).bind ih
      rw [exchange_succ]
      refine .read ?_
      simp only [hdest]
      exact .done
  | unwritten hdest hm _ ih =>
      refine (ends_limited ?_ _).bind ih
      rw [exchange_succ]
      refine .read ?_
      simp only [hdest, hm]
      exact .done
  | answered hdest hm _ _ ihanswer ih =>
      refine (ends_limited ?_ _).bind ih
      rw [exchange_succ]
      refine .read ?_
      simp only [hdest, hm]
      exact ihanswer.bind .done

/-- A program comes to one cascade. -/
theorem unique {p : Program Node α} {a : α} (h : Cascade now depth i p net t a net') :
    ∀ {t₁ : List (Posted n)} {a₁ : α} {net₁ : Network n},
      Cascade now depth i p net t₁ a₁ net₁ → t₁ = t ∧ a₁ = a ∧ net₁ = net' := by
  induction h with
  | done =>
      rintro _ _ _ ⟨⟩
      exact ⟨rfl, rfl, rfl⟩
  | read _ ih =>
      rintro _ _ _ (_ | h₁)
      exact ih h₁
  | write _ ih =>
      rintro _ _ _ (_ | _ | h₁)
      exact ih h₁
  | refused hdest _ ih =>
      intro _ _ _ h₁
      cases h₁ with
      | refused _ h₁ =>
        obtain ⟨rfl, rfl, rfl⟩ := ih h₁
        exact ⟨rfl, rfl, rfl⟩
      | unwritten hdest₁ => cases hdest.symm.trans hdest₁
      | answered hdest₁ => cases hdest.symm.trans hdest₁
  | unwritten hdest hm _ ih =>
      intro _ _ _ h₁
      cases h₁ with
      | refused hdest₁ => cases hdest₁.symm.trans hdest
      | unwritten _ hm₁ h₁ =>
        obtain ⟨⟩ := hm.symm.trans hm₁
        obtain ⟨rfl, rfl, rfl⟩ := ih h₁
        exact ⟨rfl, rfl, rfl⟩
      | answered _ hm₁ => cases hm.symm.trans hm₁
  | answered hdest hm _ _ ihanswer ih =>
      intro _ _ _ h₁
      cases h₁ with
      | refused hdest₁ => cases hdest₁.symm.trans hdest
      | unwritten _ hm₁ => cases hm.symm.trans hm₁
      | answered hdest₁ hm₁ hanswer₁ h₁ =>
        obtain ⟨⟩ := hdest.symm.trans hdest₁
        obtain ⟨⟩ := hm.symm.trans hm₁
        obtain ⟨rfl, rfl, rfl⟩ := ihanswer hanswer₁
        obtain ⟨rfl, rfl, rfl⟩ := ih h₁
        exact ⟨rfl, rfl, rfl⟩

/-- A cascade that has come to its end is the same at any greater depth. -/
theorem mono {p : Program Node α} {a : α} (h : Cascade now depth i p net t a net') :
    ∀ {depth' : Nat}, depth ≤ depth' → Cascade now depth' i p net t a net' := by
  induction h with
  | done => exact fun _ => .done
  | read _ ih => exact fun hle => .read (ih hle)
  | write _ ih => exact fun hle => .write (ih hle)
  | refused hdest _ ih =>
      intro depth' hle
      obtain ⟨d, rfl⟩ : ∃ d, depth' = d + 1 := ⟨depth' - 1, by omega⟩
      exact .refused hdest (ih hle)
  | unwritten hdest hm _ ih =>
      intro depth' hle
      obtain ⟨d, rfl⟩ : ∃ d, depth' = d + 1 := ⟨depth' - 1, by omega⟩
      exact .unwritten hdest hm (ih hle)
  | answered hdest hm _ _ ihanswer ih =>
      intro depth' hle
      obtain ⟨d, rfl⟩ : ∃ d, depth' = d + 1 := ⟨depth' - 1, by omega⟩
      exact .answered hdest hm (ihanswer (by omega)) (ih hle)

/-- One program after another. -/
theorem bind {p : Program Node α} {a : α} (h : Cascade now depth i p net t a net') :
    ∀ {β : Type} {f : α → Program Node β} {t₁ : List (Posted n)} {c : β} {net₁ : Network n},
      Cascade now depth i (f a) net' t₁ c net₁ →
        Cascade now depth i (p.bind f) net (t ++ t₁) c net₁ := by
  induction h with
  | done => exact fun h₁ => h₁
  | read _ ih => exact fun h₁ => .read (ih h₁)
  | write _ ih => exact fun h₁ => .write (ih h₁)
  | refused hdest _ ih => exact fun h₁ => .refused hdest (ih h₁)
  | unwritten hdest hm _ ih => exact fun h₁ => .unwritten hdest hm (ih h₁)
  | answered hdest hm hanswer _ _ ih =>
      intro _ _ _ _ _ h₁
      rw [List.cons_append, List.append_assoc]
      exact .answered hdest hm hanswer (ih h₁)

/-- What a program that sends nothing comes to is its cascade. -/
theorem of_quiet {p : Program Node α} (hp : p.Quiet) {a : α}
    (h : (perform (exchange depth) i p).Ends now net a net') : Cascade now depth i p net [] a net' := by
  induction hp generalizing net with
  | done a =>
      cases h
      exact .done
  | read _ ih =>
      cases h with
      | read h => exact .read (ih _ _ h)
  | write _ ih =>
      cases h with
      | read h =>
        cases h with
        | write h => exact .write (ih h)

end Cascade

/-! ### Cascades by the books -/

/-- In every network of a setting and with books, a node's program comes to a cascade that keeps the
setting, and a statement is true of what was sent, of the result and of the books then. -/
def Spreads (S : Setting n) (now : Instant) (depth : Nat) (i : Fin n) (b : Books n)
    (p : Program Node α) (Q : List (Posted n) → α → Books n → Prop) : Prop :=
  ∀ net : Network n, net.setting = S → net.books = b →
    ∃ t a net', Cascade now depth i p net t a net' ∧ net'.setting = S ∧ Q t a net'.books

/-- What a node's action spreads to, which may be its failure. -/
def Tries (S : Setting n) (now : Instant) (depth : Nat) (i : Fin n) (b : Books n)
    (x : Node.Action α) (Q : List (Posted n) → Except TunnelError α → Books n → Prop) : Prop :=
  Spreads S now depth i b x.run Q

section Rules
variable {S : Setting n} {now : Instant} {depth : Nat} {i : Fin n} {b : Books n}

theorem Spreads.mono {p : Program Node α} {P Q : List (Posted n) → α → Books n → Prop}
    (hp : Spreads S now depth i b p P) (h : ∀ t a b', P t a b' → Q t a b') :
    Spreads S now depth i b p Q := by
  intro net hset hbooks
  obtain ⟨t, a, net', hcascade, hset', hP⟩ := hp net hset hbooks
  exact ⟨t, a, net', hcascade, hset', h t a _ hP⟩

theorem Spreads.pure {a : α} {Q : List (Posted n) → α → Books n → Prop} (h : Q [] a b) :
    Spreads S now depth i b (Pure.pure a) Q := by
  rintro net hset rfl
  exact ⟨[], a, net, .done, hset, h⟩

/-- One program after another. -/
theorem Spreads.bind {p : Program Node α} {f : α → Program Node β}
    {P : List (Posted n) → α → Books n → Prop} {Q : List (Posted n) → β → Books n → Prop}
    (hp : Spreads S now depth i b p P)
    (hf : ∀ t a b', P t a b' → Spreads S now depth i b' (f a) fun t' c b'' => Q (t ++ t') c b'') :
    Spreads S now depth i b (p >>= f) Q := by
  intro net hset hbooks
  obtain ⟨t, a, net₁, hfirst, hset₁, hP⟩ := hp net hset hbooks
  obtain ⟨t', c, net', hrest, hset', hQ⟩ := hf t a _ hP net₁ hset₁ rfl
  exact ⟨t ++ t', c, net', hfirst.bind hrest, hset', hQ⟩

/-- A look of the node at itself. -/
theorem Spreads.get {f : Node → Program Node β} {Q : List (Posted n) → β → Books n → Prop}
    (h : ∀ node : Node, node.setting = S.node i → node.row = b i →
      Spreads S now depth i b (f node) Q) :
    Spreads S now depth i b (MonadState.get >>= f) Q := by
  rintro net rfl rfl
  obtain ⟨t, c, net', hcascade, hrest⟩ := h (net.node i) rfl rfl net rfl rfl
  exact ⟨t, c, net', .read hcascade, hrest⟩

/-- A program that sends nothing leads to what it spreads to. -/
theorem Spreads.quiet {p : Program Node α} (hp : p.Quiet) {P : α → Books n → Prop}
    (h : Leads S (fun _ => True) now depth i b p P) :
    Spreads S now depth i b p fun t a b' => t = [] ∧ P a b' := by
  intro net hset hbooks
  obtain ⟨a, net', hends, hset', hP⟩ := h net hset hbooks
    (Timed.Sees.always (fun _ => trivial) _ _)
  exact ⟨[], a, net', .of_quiet hp hends, hset', rfl, hP⟩

theorem Tries.mono {x : Node.Action α}
    {P Q : List (Posted n) → Except TunnelError α → Books n → Prop}
    (hx : Tries S now depth i b x P) (h : ∀ t a b', P t a b' → Q t a b') :
    Tries S now depth i b x Q :=
  Spreads.mono hx h

theorem Tries.pure {a : α} {Q : List (Posted n) → Except TunnelError α → Books n → Prop}
    (h : Q [] (.ok a) b) : Tries S now depth i b (Pure.pure a) Q :=
  Spreads.pure h

theorem Tries.throw {e : TunnelError} {Q : List (Posted n) → Except TunnelError α → Books n → Prop}
    (h : Q [] (.error e) b) : Tries S now depth i b (throw e) Q :=
  Spreads.pure h

/-- One action after another; the second is not reached if the first fails. -/
theorem Tries.bind {x : Node.Action α} {f : α → Node.Action β}
    {P : List (Posted n) → Except TunnelError α → Books n → Prop}
    {Q : List (Posted n) → Except TunnelError β → Books n → Prop} (hx : Tries S now depth i b x P)
    (hok : ∀ t a b', P t (.ok a) b' →
      Tries S now depth i b' (f a) fun t' res b'' => Q (t ++ t') res b'')
    (herror : ∀ t e b', P t (.error e) b' → Q t (.error e) b') :
    Tries S now depth i b (x >>= f) Q := by
  refine Spreads.bind (P := P) hx ?_
  rintro t (e | a) b' hP
  · apply Spreads.pure
    rw [List.append_nil]
    exact herror t e b' hP
  · exact hok t a b' hP

/-- An action, and an end that depends on what it comes to. -/
theorem Tries.andEnd {x : Node.Action α} {f : α → Node.Action β}
    {P : List (Posted n) → Books n → Prop} (hx : Tries S now depth i b x fun t _ b' => P t b')
    (hf : ∀ a, ∃ res, (f a).run = .done res) :
    Tries S now depth i b (x >>= f) fun t _ b' => P t b' := by
  refine hx.bind ?_ fun _ _ _ hP => hP
  intro t a b' hP
  obtain ⟨res, hres⟩ := hf a
  rw [Tries, hres]
  exact Spreads.pure (by rwa [List.append_nil])

/-- A look of the node at itself. -/
theorem Tries.get {f : Node → Node.Action β}
    {Q : List (Posted n) → Except TunnelError β → Books n → Prop}
    (h : ∀ node : Node, node.setting = S.node i → node.row = b i →
      Tries S now depth i b (f node) Q) :
    Tries S now depth i b (MonadState.get >>= f) Q :=
  Spreads.get h

/-- An action after a program. -/
theorem Tries.after {p : Program Node α} {f : α → Node.Action β}
    {P : List (Posted n) → α → Books n → Prop}
    {Q : List (Posted n) → Except TunnelError β → Books n → Prop}
    (hp : Spreads S now depth i b p P)
    (hf : ∀ t a b', P t a b' →
      Tries S now depth i b' (f a) fun t' res b'' => Q (t ++ t') res b'') :
    Tries S now depth i b (liftM p >>= f) Q := by
  have hlifted : Tries S now depth i b (liftM p : Node.Action α) fun t res b' =>
      ∃ a, res = .ok a ∧ P t a b' := by
    refine Spreads.bind (P := P) hp ?_
    intro t a b' hP
    apply Spreads.pure
    rw [List.append_nil]
    exact ⟨a, rfl, hP⟩
  refine hlifted.bind ?_ ?_
  · rintro t a b' ⟨_, ⟨⟩, hP⟩
    exact hf t a b' hP
  · rintro t e b' ⟨a, ⟨⟩, -⟩

/-- An action that sends nothing does what it tries. -/
theorem Tries.quiet {x : Node.Action α} (hx : x.run.Quiet)
    {P : Except TunnelError α → Books n → Prop} (h : Does S (fun _ => True) now depth i b x P) :
    Tries S now depth i b x fun t res b' => t = [] ∧ P res b' :=
  Spreads.quiet hx h

/-! ### Messages -/

/-- Where something answers, it is a hop. -/
def Setting.Plain (S : Setting n) (a : Address) : Prop :=
  ∀ e, S.endpoints.get? a = some e → ∃ j, e = .service ⟨j, .peers⟩

/-- A message to a service spreads as the service's answer does, or it is not written. -/
theorem spreads_service {dest : Address} {s : ServiceOf n} (hs : S.serviceAt? dest = some s)
    {limit : Option Duration} {m : Message} {P : List (Posted n) → Option Message → Books n → Prop}
    (h : Spreads S now depth s.owner b (Node.answer s.service m.canonical) P) :
    Spreads S now (depth + 1) i b (Program.exchange limit dest m) fun t o b' =>
      ∃ p, p.message = m ∧ p.outcome = o ∧
        (t = [p] ∧ p.reached? = none ∧ (∃ e, o = .error e) ∧ b' = b ∨
          ∃ t' reply, t = p :: t' ∧ p.reached? = some s ∧ o = Outcome.ofReply reply ∧
            P t' reply b') := by
  have hend := Setting.endpoint_of_serviceAt? hs
  rintro net rfl rfl
  obtain ⟨e, hm⟩ | hm := m.transmit_cases
  · exact ⟨_, _, net, .unwritten hend hm .done, rfl, _, rfl, rfl, .inl ⟨rfl, rfl, ⟨e, rfl⟩, rfl⟩⟩
  · obtain ⟨t, reply, net', hcascade, hset, hP⟩ := h net rfl rfl
    refine ⟨_, _, net', .answered hend hm hcascade .done, hset,
      ⟨⟨dest, m, Outcome.ofReply reply⟩, some s⟩, rfl, rfl, .inr ⟨t, reply, ?_, rfl, rfl, hP⟩⟩
    rw [List.append_nil]

/-- A message to where a hop answers, if anything, spreads as the hop's answer does, or it gets
nowhere. -/
theorem spreads_plain {dest : Address} (hdest : S.Plain dest) {limit : Option Duration}
    {m : Message} {P : List (Posted n) → Option Message → Books n → Prop}
    (h : ∀ j, Spreads S now depth j b (Node.answerPeers m.canonical) P) :
    Spreads S now (depth + 1) i b (Program.exchange limit dest m) fun t o b' =>
      ∃ p, p.message = m ∧ p.outcome = o ∧
        (t = [p] ∧ p.reached? = none ∧ (∃ e, o = .error e) ∧ b' = b ∨
          ∃ t' j reply, t = p :: t' ∧ p.reached? = some ⟨j, .peers⟩ ∧ o = Outcome.ofReply reply ∧
            P t' reply b') := by
  cases he : S.endpoints.get? dest with
  | none =>
      rintro net rfl rfl
      exact ⟨_, _, net, .refused he .done, rfl, _, rfl, rfl, .inl ⟨rfl, rfl, ⟨_, rfl⟩, rfl⟩⟩
  | some e =>
      obtain ⟨j, rfl⟩ := hdest e he
      have hs : S.serviceAt? dest = some ⟨j, .peers⟩ := by rw [Setting.serviceAt?, he]
      refine (spreads_service hs (h j)).mono ?_
      rintro t o b' ⟨p, hmessage, houtcome, hlost | ⟨t', reply, ht, hreached, hreply⟩⟩
      · exact ⟨p, hmessage, houtcome, .inl hlost⟩
      · exact ⟨p, hmessage, houtcome, .inr ⟨t', j, reply, ht, hreached, hreply⟩⟩

/-- A request spreads as the exchange does. -/
theorem tries_request {limit : Option Duration} {dest : Address} {m : Message}
    {P : List (Posted n) → Outcome → Books n → Prop}
    (h : Spreads S now depth i b (Program.exchange limit dest m) P) :
    Tries S now depth i b (Node.request limit dest m) fun t res b' =>
      ∃ o, P t o b' ∧ res = Node.ofOutcome o := by
  refine Tries.after h ?_
  rintro t (e | _ | reply) b' hP
  · exact Tries.throw ⟨_, by rwa [List.append_nil], rfl⟩
  · exact Tries.throw ⟨_, by rwa [List.append_nil], rfl⟩
  · exact Tries.pure ⟨_, by rwa [List.append_nil], rfl⟩

/-- A session request of a node is the only message that comes of it. -/
theorem spreads_own (hS : S.Own) {limit : Option Duration} (m : Message)
    {P : Option Message → SessionRegistry.Holdings → Prop}
    (h : ∀ net : Network n, net.setting = S → net.books = b →
      Replies (S.node i).registry (net.node i).registry now m.canonical P) :
    Spreads S now (depth + 1) i b
      (Program.exchange limit (S.node i).sessionService m) fun t o b' =>
        ∃ p, t = [p] ∧ p.message = m ∧ p.outcome = o ∧
          ((∃ e, o = .error e) ∧ b' = b ∨
            ∃ reply v, P reply v ∧ b' = b.withSessions i v ∧ o = Outcome.ofReply reply) := by
  refine (spreads_service (hS i) (Spreads.quiet (Node.quiet_answerSessions _)
    (leads_sessions_of_seen fun net hset hbooks _ => h net hset hbooks))).mono ?_
  rintro _ o b' ⟨p, hmessage, houtcome, ⟨rfl, -, hlost⟩ | ⟨_, reply, rfl, -, ho, rfl, v, hP, hb⟩⟩
  · exact ⟨p, rfl, hmessage, houtcome, .inl hlost⟩
  · exact ⟨p, rfl, hmessage, houtcome, .inr ⟨reply, v, hP, hb, ho⟩⟩

/-- A session request that is awaited. -/
theorem tries_askSessions (hS : S.Own) (m : Message)
    {P : Option Message → SessionRegistry.Holdings → Prop}
    (h : ∀ net : Network n, net.setting = S → net.books = b →
      Replies (S.node i).registry (net.node i).registry now m.canonical P) :
    Tries S now (depth + 1) i b (Node.askSessions m) fun t res b' =>
      ∃ p, t = [p] ∧ p.message = m ∧ res = Node.ofOutcome p.outcome ∧
        ((∃ e, p.outcome = .error e) ∧ b' = b ∨
          ∃ reply v, P reply v ∧ b' = b.withSessions i v ∧ p.outcome = Outcome.ofReply reply) := by
  refine Tries.get fun node hset hrow => ?_
  have hservice : node.sessionService = (S.node i).sessionService := by
    rw [← hset]
    rfl
  rw [hservice]
  refine (tries_request (spreads_own hS m h)).mono ?_
  rintro t _ b' ⟨_, ⟨p, ht, hmessage, rfl, hP⟩, rfl⟩
  exact ⟨p, ht, hmessage, rfl, hP⟩

/-- What a frame operation gives is gone on with; its error is a failure. -/
theorem tries_ofFrame {x : Except FrameError α} {f : α → Node.Action β}
    {Q : List (Posted n) → Except TunnelError β → Books n → Prop}
    (hok : ∀ a, x = .ok a → Tries S now depth i b (f a) Q)
    (herror : ∀ e, x = .error e → Q [] (.error (.connection e)) b) :
    Tries S now depth i b (Node.ofFrame x >>= f) Q := by
  cases x with
  | error e => exact Tries.throw (herror e rfl)
  | ok a => exact hok a rfl

/-- The numbers of requests are not on the books. -/
theorem tries_numbered {f : UInt16 → Node.Action β}
    {Q : List (Posted n) → Except TunnelError β → Books n → Prop}
    (h : ∀ number, Tries S now depth i b (f number) Q) :
    Tries S now depth i b (Node.nextRequestId >>= f) Q := by
  rintro net rfl rfl
  obtain ⟨t, res, net', hcascade, hrest⟩ := h (net.node i).nextRequest
    (net.setNode i { net.node i with nextRequest := (net.node i).nextRequest + 1 })
    (setting_setNode rfl) ((books_setNode _ _ _).trans (Function.update_eq_self i _))
  exact ⟨t, res, net', .read (.write hcascade), hrest⟩

end Rules

end OnionTunnel.Network
