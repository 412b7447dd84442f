import OnionTunnel.Proofs.Node.Within

/-!
# The session service stays where it is

A program of a node writes the node's state, and the state names the session service that the
requests for sessions go to. Building a tunnel leaves that name alone in every state that is
written, whatever comes of the messages that are sent.
-/

namespace OnionTunnel.Node

variable {α : Type} {a : Address}

/-- A node whose session service is at an address has it there whatever the program writes. -/
inductive Stays {α : Type} (a : Address) : Program Node α → Prop
  | done (c : α) : Stays a (.done c)
  | read {k : Instant → Node → Program Node α}
      (h : ∀ now n, n.sessionService = a → Stays a (k now n)) : Stays a (.read k)
  | write {n : Node} {p : Program Node α} (hn : n.sessionService = a) (h : Stays a p) :
      Stays a (.write n p)
  | send {dest : Address} {m : Message} {limit : Option Duration} {k : Outcome → Program Node α}
      (h : ∀ o, Stays a (k o)) : Stays a (.send dest m limit k)

/-- A program that keeps within any bounds leaves the session service where it is. -/
theorem Within.stays {D : Address → Message → Prop} {Q : α → Prop} {p : Program Node α}
    (hp : Within a D Q p) : Stays a p := by
  induction hp with
  | done => exact .done _
  | look _ ih => exact .read ih
  | change hf _ ih => exact .read fun _ n hn => .write ((hf n).service.trans hn) (ih n hn)
  | send _ _ ih => exact .send ih

/-- Building a tunnel leaves the session service where it is, whether it succeeds or not. -/
theorem stays_build (mode : TunnelMode) (hops : List Hop) : Stays a (build mode hops).run := by
  have hany : ∀ dest, Peering (fun _ _ => True) dest := fun _ => .of_all fun _ => trivial
  exact Within.stays (within_build (fun _ => trivial) fun x _ => hany x)

end OnionTunnel.Node
