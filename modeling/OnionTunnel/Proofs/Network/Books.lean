import OnionTunnel.Network.Basic
import OnionTunnel.Proofs.Network.AtOnce
import OnionTunnel.Proofs.Session.Outcome

/-!
# The books of a network

The books of a network are the sessions, links, tunnels and deliveries of its nodes. Its setting is
what no node changes. `Yields` and `Leads` speak of an activity and of a node's program by these
alone: whatever else the nodes remember, it ends at once, with a result and books of which a
statement is true. What is assumed of all that it sees on the way is a statement about networks.

## Implementation notes

Where random bytes and identifiers come from is part of the setting, how many of them are drawn is
not. Peer directories and the numbers of requests are in neither.
-/

namespace OnionTunnel

instance {σ : Type} : LawfulMonad (Program σ) :=
  LawfulMonad.mk' _ (fun p => Program.bind_done p) (fun _ _ => rfl)
    fun p f g => Program.bind_assoc p f g

/-- What a node never changes. -/
structure Node.Setting where
  registry : SessionRegistry.Setting
  sessionService : Address
  answer : List Delivery → Delivery → Except TunnelError Bytes
  tunnelDraw : Nat → UInt32
  tunnelAttempts : Nat

/-- What the books say of one node. -/
@[ext] structure Row where
  session : SessionRegistry.Holdings
  link : UInt32 → Option Link
  slot : UInt32 → Option Slot
  handed : List Delivery

namespace Node

/-- The setting of a node. -/
def setting (n : Node) : Setting :=
  ⟨n.registry.setting, n.sessionService, n.sink.answer, n.tunnels.ids.draw, n.tunnels.ids.attempts⟩

/-- The row of a node. -/
def row (n : Node) : Row :=
  ⟨n.registry.holdings, n.links.get?, n.tunnels.slots.get?, n.sink.handed⟩

theorem hostkey_of_setting {node : Node} {N : Setting} (h : node.setting = N) :
    node.hostkey = N.registry.keypair.hostkey := by
  subst h
  rfl

/-- Peer directories are not on the books. -/
theorem updateDirectory_setting (f : PeerDirectory → PeerDirectory) (n : Node) :
    (updateDirectory f n).setting = n.setting ∧ (updateDirectory f n).row = n.row := by
  unfold updateDirectory
  cases n.ownDirectory? <;> exact ⟨rfl, rfl⟩

end Node

/-- What the nodes never change, and what answers where. -/
structure Network.Setting (n : Nat) where
  node : Fin n → Node.Setting
  endpoints : Table Address (Endpoint n)

/-- What the books say of every node. -/
abbrev Books (n : Nat) := Fin n → Row

namespace Network

variable {n : Nat} {α β : Type}

/-- The setting of a network. -/
def setting (net : Network n) : Setting n := ⟨fun i => (net.node i).setting, net.endpoints⟩

/-- The books of a network. -/
def books (net : Network n) : Books n := fun i => (net.node i).row

theorem node_setNode (net : Network n) (i j : Fin n) (node : Node) :
    (net.setNode i node).node j = if j = i then node else (net.node j) := by
  simp only [Network.node, setNode, Fin.getElem_fin, Vector.getElem_set, Fin.val_inj, eq_comm]

theorem setting_setNode {net : Network n} {i : Fin n} {node : Node}
    (h : node.setting = (net.node i).setting) : (net.setNode i node).setting = net.setting := by
  unfold setting
  congr 1
  funext j
  rw [node_setNode]
  split
  · next hj => rw [hj, h]
  · rfl

theorem books_setNode (net : Network n) (i : Fin n) (node : Node) :
    (net.setNode i node).books = Function.update net.books i node.row := by
  funext j
  simp only [books, node_setNode, Function.update_apply]
  split <;> rfl

/-- In every network of a setting and with books, an activity ends at once, keeps the setting, and
ends with a result and books of which a statement is true. It may be assumed that another statement
is true of whatever the activity sees. -/
def Yields (S : Setting n) (V : Network n → Prop) (now : Instant) (b : Books n) (p : Activity n α)
    (Q : α → Books n → Prop) : Prop :=
  ∀ net : Network n, net.setting = S → net.books = b → p.Sees V now net →
    ∃ a net', p.Ends now net a net' ∧ net'.setting = S ∧ Q a net'.books

/-- What a node's program yields, with what it sends followed to a depth. -/
def Leads (S : Setting n) (V : Network n → Prop) (now : Instant) (depth : Nat) (i : Fin n)
    (b : Books n) (p : Program Node α) (Q : α → Books n → Prop) : Prop :=
  Yields S V now b (perform (exchange depth) i p) Q

/-- What a node's action leads to, which may be its failure. -/
def Does (S : Setting n) (V : Network n → Prop) (now : Instant) (depth : Nat) (i : Fin n)
    (b : Books n) (x : Node.Action α) (Q : Except TunnelError α → Books n → Prop) : Prop :=
  Leads S V now depth i b x.run Q

section Rules
variable {S : Setting n} {V : Network n → Prop} {now : Instant} {depth : Nat} {i : Fin n}
  {b : Books n}

theorem Yields.mono {p : Activity n α} {P Q : α → Books n → Prop} (hp : Yields S V now b p P)
    (h : ∀ a b', P a b' → Q a b') : Yields S V now b p Q := by
  intro net hS hb hsees
  obtain ⟨a, net', hends, hset, hP⟩ := hp net hS hb hsees
  exact ⟨a, net', hends, hset, h a _ hP⟩

theorem Yields.done {a : α} {Q : α → Books n → Prop} (h : Q a b) : Yields S V now b (.done a) Q := by
  rintro net hS rfl -
  exact ⟨a, net, .done, hS, h⟩

theorem Yields.bind {p : Activity n α} {f : α → Activity n β} {P : α → Books n → Prop}
    {Q : β → Books n → Prop} (hp : Yields S V now b p P)
    (hf : ∀ a b', P a b' → Yields S V now b' (f a) Q) : Yields S V now b (p.bind f) Q := by
  intro net hS hb hsees
  obtain ⟨a, net₁, hends, hset, hP⟩ := hp net hS hb hsees.first
  obtain ⟨c, net', hends', hset', hQ⟩ := hf a _ hP net₁ hset rfl (hsees.rest hends)
  exact ⟨c, net', hends.bind hends', hset', hQ⟩

theorem perform_bind (sender : Sender n) (i : Fin n) (p : Program Node α)
    (f : α → Program Node β) :
    perform sender i (p.bind f) = (perform sender i p).bind fun a => perform sender i (f a) := by
  induction p with
  | done a => rfl
  | read k ih => simp only [Program.bind, perform, Timed.bind, ih]
  | write s p ih => simp only [Program.bind, perform, Timed.bind, ih]
  | send dest m limit k ih => simp only [Program.bind, perform, Timed.bind_assoc, ih]

theorem Leads.mono {p : Program Node α} {P Q : α → Books n → Prop}
    (hp : Leads S V now depth i b p P) (h : ∀ a b', P a b' → Q a b') :
    Leads S V now depth i b p Q :=
  Yields.mono hp h

theorem Leads.pure {a : α} {Q : α → Books n → Prop} (h : Q a b) :
    Leads S V now depth i b (Pure.pure a) Q :=
  Yields.done h

/-- One program after another. -/
theorem Leads.bind {p : Program Node α} {f : α → Program Node β} {P : α → Books n → Prop}
    {Q : β → Books n → Prop} (hp : Leads S V now depth i b p P)
    (hf : ∀ a b', P a b' → Leads S V now depth i b' (f a) Q) :
    Leads S V now depth i b (p >>= f) Q := by
  have hseq : perform (exchange depth) i (p >>= f) = _ := perform_bind (exchange depth) i p f
  unfold Leads
  rw [hseq]
  exact Yields.bind hp hf

/-- A look at the node's own state, where it is in a network that is seen. -/
theorem Leads.get_of_seen {f : Node → Program Node α} {Q : α → Books n → Prop}
    (h : ∀ net : Network n, net.setting = S → net.books = b → V net →
      Leads S V now depth i b (f (net.node i)) Q) :
    Leads S V now depth i b (MonadState.get >>= f) Q := by
  rintro net rfl rfl hsees
  obtain ⟨a, net', hends, hQ⟩ := h net rfl rfl hsees.1 net rfl rfl hsees.2
  exact ⟨a, net', .read hends, hQ⟩

/-- A look at the node's own state. -/
theorem Leads.get {f : Node → Program Node α} {Q : α → Books n → Prop}
    (h : ∀ node : Node, node.setting = S.node i → node.row = b i →
      Leads S V now depth i b (f node) Q) :
    Leads S V now depth i b (MonadState.get >>= f) Q := by
  apply Leads.get_of_seen
  rintro net rfl rfl -
  exact h (net.node i) rfl rfl

/-- A look at the clock. -/
theorem Leads.clock {f : Instant → Program Node α} {Q : α → Books n → Prop}
    (h : Leads S V now depth i b (f now) Q) : Leads S V now depth i b (Program.clock >>= f) Q := by
  intro net hS hb hsees
  obtain ⟨a, net', hends, hQ⟩ := h net hS hb hsees.2
  exact ⟨a, net', .read hends, hQ⟩

/-- A change of the node's own state, and what it hands on, where it is in a network that is seen. -/
theorem Leads.modifyGet_of_seen {f : Node → α × Node} {Q : α → Books n → Prop}
    (h : ∀ net : Network n, net.setting = S → net.books = b → V net →
      (f (net.node i)).2.setting = S.node i ∧
        Q (f (net.node i)).1 (Function.update b i (f (net.node i)).2.row)) :
    Leads S V now depth i b (MonadStateOf.modifyGet f) Q := by
  rintro net rfl rfl hsees
  obtain ⟨hset, hQ⟩ := h net rfl rfl hsees.1
  exact ⟨_, _, .read (.read (.write .done)), setting_setNode hset, by rwa [books_setNode]⟩

/-- A change of the node's own state, and what it hands on. -/
theorem Leads.modifyGet {f : Node → α × Node} {Q : α → Books n → Prop}
    (h : ∀ node : Node, node.setting = S.node i → node.row = b i →
      (f node).2.setting = S.node i ∧ Q (f node).1 (Function.update b i (f node).2.row)) :
    Leads S V now depth i b (MonadStateOf.modifyGet f) Q := by
  apply Leads.modifyGet_of_seen
  rintro net rfl rfl -
  exact h (net.node i) rfl rfl

/-- No limit changes what comes of an exchange that ends at once. -/
theorem ends_limited {p : Activity n Outcome} {o : Outcome} {net net' : Network n}
    (h : p.Ends now net o net') (limit : Option Duration) :
    (limited limit p).Ends now net o net' := by
  cases limit with
  | none => exact h
  | some d => exact (h.within _).bind .done

/-- A message that is sent, with or without a limit. -/
theorem Leads.exchange {limit : Option Duration} {dest : Address} {m : Message}
    {Q : Outcome → Books n → Prop} (h : Yields S V now b (Network.exchange depth dest m) Q) :
    Leads S V now depth i b (Program.exchange limit dest m) Q := by
  intro net hS hb hsees
  have hfirst : (limited limit (Network.exchange depth dest m)).Sees V now net := hsees.first
  have hexchange : (Network.exchange depth dest m).Sees V now net := by
    cases limit with
    | none => exact hfirst
    | some d => exact (Timed.Sees.first hfirst).of_within
  obtain ⟨a, net', hends, hQ⟩ := h net hS hb hexchange
  exact ⟨a, net', (ends_limited hends limit).bind .done, hQ⟩

theorem Does.mono {x : Node.Action α} {P Q : Except TunnelError α → Books n → Prop}
    (hx : Does S V now depth i b x P) (h : ∀ a b', P a b' → Q a b') : Does S V now depth i b x Q :=
  Yields.mono hx h

theorem Does.pure {a : α} {Q : Except TunnelError α → Books n → Prop} (h : Q (.ok a) b) :
    Does S V now depth i b (Pure.pure a) Q :=
  Yields.done h

theorem Does.throw {e : TunnelError} {Q : Except TunnelError α → Books n → Prop}
    (h : Q (.error e) b) : Does S V now depth i b (throw e) Q :=
  Yields.done h

/-- One action after another; the second is not reached if the first fails. -/
theorem Does.bind {x : Node.Action α} {f : α → Node.Action β}
    {P : Except TunnelError α → Books n → Prop} {Q : Except TunnelError β → Books n → Prop}
    (hx : Does S V now depth i b x P) (hok : ∀ a b', P (.ok a) b' → Does S V now depth i b' (f a) Q)
    (herror : ∀ e b', P (.error e) b' → Q (.error e) b') : Does S V now depth i b (x >>= f) Q := by
  apply Leads.bind hx
  rintro (e | a) b' hP
  · exact Leads.pure (herror e b' hP)
  · exact hok a b' hP

/-- A program among actions. -/
theorem Does.lift {p : Program Node α} {Q : Except TunnelError α → Books n → Prop}
    (hp : Leads S V now depth i b p fun a b' => Q (.ok a) b') :
    Does S V now depth i b (liftM p) Q :=
  Leads.bind hp fun _ _ hQ => Leads.pure hQ

/-- An action after a program. -/
theorem Does.after {p : Program Node α} {f : α → Node.Action β} {P : α → Books n → Prop}
    {Q : Except TunnelError β → Books n → Prop} (hp : Leads S V now depth i b p P)
    (hf : ∀ a b', P a b' → Does S V now depth i b' (f a) Q) :
    Does S V now depth i b (liftM p >>= f) Q := by
  refine Does.bind (P := fun res b' => ∃ a, res = .ok a ∧ P a b') ?_ ?_ ?_
  · exact Does.lift (hp.mono fun a b' hP => ⟨a, rfl, hP⟩)
  · rintro a b' ⟨_, ⟨⟩, hP⟩
    exact hf a b' hP
  · rintro _ _ ⟨_, ⟨⟩, _⟩

/-- An action that does not fail, and one after it. -/
theorem Does.andThen {x : Node.Action α} {f : α → Node.Action β} {P : α → Books n → Prop}
    {Q : Except TunnelError β → Books n → Prop}
    (hx : Does S V now depth i b x fun res b' => ∃ a, res = .ok a ∧ P a b')
    (h : ∀ a b', P a b' → Does S V now depth i b' (f a) Q) : Does S V now depth i b (x >>= f) Q := by
  refine hx.bind ?_ ?_
  · rintro a b' ⟨a', ha, hP⟩
    obtain rfl := Except.ok.inj ha
    exact h a b' hP
  · rintro e b' ⟨a, ha, -⟩
    cases ha

/-- An action that is tried. -/
theorem Does.attempt {x : Node.Action α} {f : Except TunnelError α → Node.Action β}
    {P : Except TunnelError α → Books n → Prop} {Q : Except TunnelError β → Books n → Prop}
    (hx : Does S V now depth i b x P) (h : ∀ res b', P res b' → Does S V now depth i b' (f res) Q) :
    Does S V now depth i b (Node.attempt x >>= f) Q :=
  Does.after hx h

/-- A look at the node's own state, where it is in a network that is seen. -/
theorem Does.get_of_seen {f : Node → Node.Action α} {Q : Except TunnelError α → Books n → Prop}
    (h : ∀ net : Network n, net.setting = S → net.books = b → V net →
      Does S V now depth i b (f (net.node i)) Q) :
    Does S V now depth i b (MonadState.get >>= f) Q :=
  Leads.get_of_seen h

/-- A look at the node's own state. -/
theorem Does.get {f : Node → Node.Action α} {Q : Except TunnelError α → Books n → Prop}
    (h : ∀ node : Node, node.setting = S.node i → node.row = b i →
      Does S V now depth i b (f node) Q) :
    Does S V now depth i b (MonadState.get >>= f) Q :=
  Leads.get h

/-- A change of the node's own state. -/
theorem Does.change {f : Node → Node} {Q : Except TunnelError PUnit → Books n → Prop}
    (h : ∀ node : Node, node.setting = S.node i → node.row = b i →
      (f node).setting = S.node i ∧ Q (.ok ⟨⟩) (Function.update b i (f node).row)) :
    Does S V now depth i b (modify f) Q :=
  Does.lift (Leads.modifyGet h)

end Rules

end Network

end OnionTunnel
