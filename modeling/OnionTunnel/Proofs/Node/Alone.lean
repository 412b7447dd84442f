import OnionTunnel.Proofs.Network.Services
import OnionTunnel.Proofs.Session.Footprint

/-!
# A node among others that do as they like

A node's program is followed on its own: its session requests are answered by its own registry, and
whatever it sends elsewhere brings back anything, or nothing. What is sent elsewhere is on record.
`Comes` and `Acts` speak of all the ends that a program and an action can come to.

## Implementation notes

Others do not change the node while it waits for them. The moment of every step is arbitrary, since
others take their time to answer. What comes of a message to them is arbitrary too, so limits need
not be followed.
-/

namespace OnionTunnel

open Network SessionRegistry

/-- A message that a node has sent to others, and what came of it. -/
structure Sent where
  dest : Address
  message : Message
  outcome : Outcome

/-- A message has brought back a link and a handshake. -/
def Sent.Returns (s : Sent) (link : UInt32) (handshake : Bytes) : Prop :=
  s.outcome = .ok (some (.sessionHandshake2 link handshake))

/-- A message tells a peer to drop a link. -/
def Sent.Drops (s : Sent) (dest : Address) (link : UInt32) : Prop :=
  s.dest = dest ∧ s.message = .tunnelDestroy link

namespace Node

variable {α β : Type} {n n' : Node} {t : List Sent}

/-- What comes of a message to a node's own session service, and the registry then. -/
def ownExchange (now : Instant) (m : Message) (r : SessionRegistry) : Outcome × SessionRegistry :=
  match m.transmit with
  | .error fault => (.error fault, r)
  | .ok arrived => (Outcome.ofReply (r.handle now arrived).1, (r.handle now arrived).2)

/-- A program that a node begins can end so, with what it has sent to others on the way. -/
inductive Runs {α : Type} : Program Node α → Node → List Sent → α → Node → Prop
  | done {a : α} {n : Node} : Runs (.done a) n [] a n
  | read {k : Instant → Node → Program Node α} {n n' : Node} {t : List Sent} {a : α}
      (now : Instant) (h : Runs (k now n) n t a n') : Runs (.read k) n t a n'
  | write {p : Program Node α} {n s n' : Node} {t : List Sent} {a : α} (h : Runs p s t a n') :
      Runs (.write s p) n t a n'
  | ask {dest : Address} {m : Message} {limit : Option Duration} {k : Outcome → Program Node α}
      {n n' : Node} {t : List Sent} {a : α} (now : Instant) (hown : dest = n.sessionService)
      (h : Runs (k (ownExchange now m n.registry).1)
        { n with registry := (ownExchange now m n.registry).2 } t a n') :
      Runs (.send dest m limit k) n t a n'
  | send {dest : Address} {m : Message} {limit : Option Duration} {k : Outcome → Program Node α}
      {n n' : Node} {t : List Sent} {a : α} (o : Outcome) (hother : dest ≠ n.sessionService)
      (h : Runs (k o) n t a n') : Runs (.send dest m limit k) n (⟨dest, m, o⟩ :: t) a n'

/-- A run of two programs is a run of the first one and then one of the second. -/
theorem Runs.bind_cases {p : Program Node α} {f : α → Program Node β} {c : β}
    (h : Runs (p.bind f) n t c n') :
    ∃ t₁ a n₁ t₂, Runs p n t₁ a n₁ ∧ Runs (f a) n₁ t₂ c n' ∧ t = t₁ ++ t₂ := by
  induction p generalizing n t with
  | done a => exact ⟨[], a, n, t, .done, h, rfl⟩
  | read k ih =>
      cases h with
      | read now h =>
        obtain ⟨t₁, a, n₁, t₂, hp, hf, ht⟩ := ih now n h
        exact ⟨t₁, a, n₁, t₂, .read now hp, hf, ht⟩
  | write s p ih =>
      cases h with
      | write h =>
        obtain ⟨t₁, a, n₁, t₂, hp, hf, ht⟩ := ih h
        exact ⟨t₁, a, n₁, t₂, .write hp, hf, ht⟩
  | send dest m limit k ih =>
      cases h with
      | ask now hown h =>
        obtain ⟨t₁, a, n₁, t₂, hp, hf, ht⟩ := ih _ h
        exact ⟨t₁, a, n₁, t₂, .ask now hown hp, hf, ht⟩
      | send o hother h =>
        obtain ⟨t₁, a, n₁, t₂, hp, hf, rfl⟩ := ih o h
        exact ⟨_, a, n₁, t₂, .send o hother hp, hf, rfl⟩

/-- A run at one moment of a program whose messages to others are answered by a rule. -/
def replay (now : Instant) (others : Address → Message → Outcome) :
    Program Node α → Node → List Sent × α × Node
  | .done a, n => ([], a, n)
  | .read k, n => replay now others (k now n) n
  | .write s p, _ => replay now others p s
  | .send dest m _ k, n =>
    if dest = n.sessionService then
      replay now others (k (ownExchange now m n.registry).1)
        { n with registry := (ownExchange now m n.registry).2 }
    else
      let rest := replay now others (k (others dest m)) n
      (⟨dest, m, others dest m⟩ :: rest.1, rest.2)

theorem runs_replay (now : Instant) (others : Address → Message → Outcome) (p : Program Node α)
    (n : Node) : Runs p n (replay now others p n).1 (replay now others p n).2.1
      (replay now others p n).2.2 := by
  induction p generalizing n with
  | done a => exact .done
  | read k ih => exact .read now (ih now n n)
  | write s p ih => exact .write (ih s)
  | send dest m limit k ih =>
      rw [replay]
      split
      · next hown => exact .ask now hown (ih _ _)
      · next hother => exact .send _ hother (ih _ n)

/-- Whatever others do, a statement is true of what a program has sent, what it ends with and the
node then. -/
def Comes (n : Node) (p : Program Node α) (Q : List Sent → α → Node → Prop) : Prop :=
  ∀ t a n', Runs p n t a n' → Q t a n'

/-- Whatever others do, a statement is true of what an action has sent, what it ends with and the
node then. -/
def Acts (n : Node) (x : Action α) (Q : List Sent → Except TunnelError α → Node → Prop) : Prop :=
  Comes n x.run Q

/-! ### Rules -/

section Rules
variable {Q : List Sent → β → Node → Prop}

theorem Comes.mono {p : Program Node β} {P : List Sent → β → Node → Prop} (hp : Comes n p P)
    (h : ∀ t a n', P t a n' → Q t a n') : Comes n p Q :=
  fun t a n' hrun => h t a n' (hp t a n' hrun)

theorem Comes.pure {a : β} (h : Q [] a n) : Comes n (Pure.pure a) Q := by
  rintro t a n' ⟨⟩
  exact h

/-- One program after another. -/
theorem Comes.bind {p : Program Node α} {f : α → Program Node β} {P : List Sent → α → Node → Prop}
    (hp : Comes n p P)
    (hf : ∀ t a n₁, P t a n₁ → Comes n₁ (f a) fun t' c n' => Q (t ++ t') c n') :
    Comes n (p >>= f) Q := by
  intro t c n' hrun
  obtain ⟨t₁, a, n₁, t₂, hfirst, hsecond, rfl⟩ := Runs.bind_cases hrun
  exact hf t₁ a n₁ (hp t₁ a n₁ hfirst) t₂ c n' hsecond

/-- A look of the node at itself. -/
theorem Comes.get {f : Node → Program Node β} (h : Comes n (f n) Q) :
    Comes n (MonadState.get >>= f) Q := by
  intro t c n' hrun
  cases hrun with
  | read now hrun => exact h t c n' hrun

/-- A change of the node, and what it hands on. -/
theorem Comes.modifyGet {f : Node → β × Node} (h : Q [] (f n).1 (f n).2) :
    Comes n (MonadStateOf.modifyGet f) Q := by
  intro t c n' hrun
  cases hrun with
  | read now hrun =>
    cases hrun with
    | write hrun =>
      cases hrun
      exact h

/-- A change of the node, and a program after it. -/
theorem Comes.change {f : Node → Node} {g : PUnit → Program Node β} (h : Comes (f n) (g ⟨⟩) Q) :
    Comes n (modify f >>= g) Q := by
  refine Comes.bind (P := fun t _ n' => t = [] ∧ n' = f n) (Comes.modifyGet ⟨rfl, rfl⟩) ?_
  rintro _ _ _ ⟨rfl, rfl⟩
  exact h

/-- A message to the node's own session service. -/
theorem Comes.ask {Q : List Sent → Outcome → Node → Prop} {m : Message} {limit : Option Duration}
    (h : ∀ now, Q [] (ownExchange now m n.registry).1
      { n with registry := (ownExchange now m n.registry).2 }) :
    Comes n (Program.exchange limit n.sessionService m) Q := by
  intro t o n' hrun
  cases hrun with
  | ask now _ hrest =>
    cases hrest
    exact h now
  | send _ hother => exact (hother rfl).elim

/-- A message to others. -/
theorem Comes.send {Q : List Sent → Outcome → Node → Prop} {dest : Address} {m : Message}
    {limit : Option Duration} (hother : dest ≠ n.sessionService)
    (h : ∀ o, Q [⟨dest, m, o⟩] o n) : Comes n (Program.exchange limit dest m) Q := by
  intro t o n' hrun
  cases hrun with
  | ask _ hown => exact (hother hown).elim
  | send o _ hrest =>
    cases hrest
    exact h o

/-- A message whose reply is not looked at. -/
theorem Comes.notify {Q : List Sent → Unit → Node → Prop} {dest : Address} {m : Message}
    {limit : Option Duration}
    (h : Comes n (Program.exchange limit dest m) fun t _ n' => Q t ⟨⟩ n') :
    Comes n (Node.notify limit dest m) Q := by
  refine Comes.bind h ?_
  intro t o n' hQ
  apply Comes.pure
  rw [List.append_nil]
  exact hQ

end Rules

section Actions
variable {Q : List Sent → Except TunnelError β → Node → Prop}

theorem Acts.mono {x : Action β} {P : List Sent → Except TunnelError β → Node → Prop}
    (hx : Acts n x P) (h : ∀ t a n', P t a n' → Q t a n') : Acts n x Q :=
  Comes.mono hx h

theorem Acts.and_runs {x : Action β} (hx : Acts n x Q) :
    Acts n x fun t res n' => Q t res n' ∧ Runs x.run n t res n' :=
  fun t res n' hrun => ⟨hx t res n' hrun, hrun⟩

theorem Acts.pure {a : β} (h : Q [] (.ok a) n) : Acts n (Pure.pure a) Q :=
  Comes.pure h

theorem Acts.throw {e : TunnelError} (h : Q [] (.error e) n) : Acts n (throw e) Q :=
  Comes.pure h

/-- One action after another; the second is not reached if the first fails. -/
theorem Acts.bind {x : Action α} {f : α → Action β}
    {P : List Sent → Except TunnelError α → Node → Prop} (hx : Acts n x P)
    (hok : ∀ t a n₁, P t (.ok a) n₁ → Acts n₁ (f a) fun t' res n' => Q (t ++ t') res n')
    (herror : ∀ t e n₁, P t (.error e) n₁ → Q t (.error e) n₁) : Acts n (x >>= f) Q := by
  refine Comes.bind (P := P) hx ?_
  intro t res n₁ hP
  cases res with
  | ok a => exact hok t a n₁ hP
  | error e =>
    apply Comes.pure
    rw [List.append_nil]
    exact herror t e n₁ hP

/-- An action after a program. -/
theorem Acts.after {p : Program Node α} {f : α → Action β} {P : List Sent → α → Node → Prop}
    (hp : Comes n p P)
    (hf : ∀ t a n₁, P t a n₁ → Acts n₁ (f a) fun t' res n' => Q (t ++ t') res n') :
    Acts n (liftM p >>= f) Q := by
  have hlifted : Acts n (liftM p : Action α) fun t res n' => ∃ a, res = .ok a ∧ P t a n' := by
    refine Comes.bind (P := P) hp ?_
    intro t a n₁ hP
    apply Comes.pure
    rw [List.append_nil]
    exact ⟨a, rfl, hP⟩
  refine hlifted.bind ?_ ?_
  · rintro t a n₁ ⟨_, ⟨⟩, hP⟩
    exact hf t a n₁ hP
  · rintro t e n₁ ⟨a, ⟨⟩, -⟩

/-- An action that is tried. -/
theorem Acts.attempt {x : Action α} {f : Except TunnelError α → Action β}
    {P : List Sent → Except TunnelError α → Node → Prop} (hx : Acts n x P)
    (hf : ∀ t res n₁, P t res n₁ → Acts n₁ (f res) fun t' res n' => Q (t ++ t') res n') :
    Acts n (attempt x >>= f) Q :=
  Acts.after hx hf

/-- A look of the node at itself. -/
theorem Acts.get {f : Node → Action β} (h : Acts n (f n) Q) : Acts n (MonadState.get >>= f) Q :=
  Comes.get h

/-- A change of the node, and nothing after it. -/
theorem Acts.changed {Q : List Sent → Except TunnelError PUnit → Node → Prop} {f : Node → Node}
    (h : Q [] (.ok ⟨⟩) (f n)) : Acts n (modify f) Q := by
  intro t res n' hrun
  cases hrun with
  | read now hrun =>
    cases hrun with
    | write hrun =>
      cases hrun
      exact h

/-- A change of the node, and an action after it. -/
theorem Acts.change {f : Node → Node} {g : PUnit → Action β} (h : Acts (f n) (g ⟨⟩) Q) :
    Acts n (modify f >>= g) Q := by
  refine Acts.after (P := fun t _ n' => t = [] ∧ n' = f n) (Comes.modifyGet ⟨rfl, rfl⟩) ?_
  rintro _ _ _ ⟨rfl, rfl⟩
  exact h

end Actions

/-! ### Sameness -/

@[simp] theorem holdings_updateDirectory (f : PeerDirectory → PeerDirectory) (n : Node) :
    (n.updateDirectory f).registry.holdings = n.registry.holdings := by
  funext id
  rw [holdings, holdings, sessions_updateDirectory]

/-- A node is as before but for some sessions and what it remembers of them. -/
structure SameBut (new : List UInt32) (n n' : Node) : Prop where
  registry : SessionRegistry.SameBut new new n.registry n'.registry
  own : ∀ id, id ∉ new →
    n'.ownDirectory?.map (·.identityOf? id) = n.ownDirectory?.map (·.identityOf? id)
  setting : n'.registry.setting = n.registry.setting
  tunnels : n'.tunnels = n.tunnels
  service : n'.sessionService = n.sessionService

namespace SameBut

variable {n'' : Node} {new new' : List UInt32}

theorem refl (new : List UInt32) (n : Node) : SameBut new n n :=
  ⟨.refl new new n.registry, fun _ _ => rfl, rfl, rfl, rfl⟩

theorem trans (h : SameBut new n n') (h' : SameBut new n' n'') : SameBut new n n'' where
  registry := h.registry.trans h'.registry
  own id hid := (h'.own id hid).trans (h.own id hid)
  setting := h'.setting.trans h.setting
  tunnels := h'.tunnels.trans h.tunnels
  service := h'.service.trans h.service

theorem mono (h : SameBut new n n') (hsub : new ⊆ new') : SameBut new' n n' where
  registry := h.registry.mono hsub hsub
  own id hid := h.own id fun hmem => hid (hsub hmem)
  setting := h.setting
  tunnels := h.tunnels
  service := h.service

/-- Other sessions are bound to the same peers. -/
theorem binding (h : SameBut new n n') {id : UInt32} (hid : id ∉ new) :
    n'.directory.identityOf? id = n.directory.identityOf? id := by
  have hown := h.own id hid
  unfold directory
  cases hd : n.ownDirectory? with
  | none =>
    rw [hd, Option.map_none, Option.map_eq_none_iff] at hown
    rw [hown]
    exact h.registry.binding id hid
  | some d =>
    rw [hd, Option.map_some, Option.map_eq_some_iff] at hown
    obtain ⟨d', hd', hsame⟩ := hown
    rw [hd']
    exact hsame

theorem hostkey_eq (h : SameBut new n n') : n'.hostkey = n.hostkey :=
  congrArg (fun R => R.keypair.hostkey) h.setting

/-- A registry that is the same but for some sessions makes a node that is. -/
theorem of_registry {r : SessionRegistry} {number : UInt16}
    (h : Confined new new n.registry r) :
    SameBut new n { n with registry := r, nextRequest := number } :=
  ⟨h.toSameBut, fun _ _ => rfl, h.setting, rfl, rfl⟩

/-- A change of the directory that leaves all bindings but some alone. -/
theorem updateDirectory {f : PeerDirectory → PeerDirectory}
    (h : ∀ d id, id ∉ new → (f d).identityOf? id = d.identityOf? id) (n : Node) :
    SameBut new n (n.updateDirectory f) := by
  unfold Node.updateDirectory
  cases hd : n.ownDirectory? with
  | none => exact ⟨⟨fun _ _ => rfl, h _⟩, by simp [hd], rfl, rfl, rfl⟩
  | some d =>
    refine ⟨.refl _ _ _, ?_, rfl, rfl, rfl⟩
    intro id hid
    simp only [hd, Option.map_some, h d id hid]

end SameBut

end Node

end OnionTunnel
