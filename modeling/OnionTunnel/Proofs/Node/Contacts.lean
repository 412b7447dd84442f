import OnionTunnel.Proofs.Node.Alone

/-!
# What a node says to whom

Surroundings bring something back for each message that a node sends, and may change the node while
it waits. `Goes` follows a program among them as far as it gets and keeps each message with the
node that sent it, also those to the node's own session service.

## Implementation notes

A program may be left off at any point. What is true of all that is sent by then is true of a
program that waits for ever or is given up, too.
-/

namespace OnionTunnel.Node

variable {α β : Type} {n n' : Node}

/-- A message that a node has sent, with the node then and what came of it. -/
structure Contact where
  node : Node
  dest : Address
  message : Message
  outcome : Outcome

/-- What may come of a message of a node, and what the node may be by then. -/
abbrev Surroundings := Node → Address → Message → Outcome → Node → Prop

/-- Anything may come of a message, and all of the node may have changed by then, but for the place
of its session service. -/
def restless : Surroundings :=
  fun n _ _ _ n' => n'.sessionService = n.sessionService

/-- Surroundings that leave the session service where it is. -/
def Surroundings.Steady (E : Surroundings) : Prop :=
  ∀ n dest m o n', E n dest m o n' → n'.sessionService = n.sessionService

theorem steady_restless : restless.Steady := fun _ _ _ _ _ h => h

/-- A program that a node begins can have come so far, with what it has sent on the way. If it has
ended, it has ended with a value. -/
inductive Goes (E : Surroundings) {α : Type} :
    Program Node α → Node → List Contact → Option α → Node → Prop
  | pause {p : Program Node α} {n : Node} : Goes E p n [] none n
  | done {a : α} {n : Node} : Goes E (.done a) n [] (some a) n
  | read {k : Instant → Node → Program Node α} {n n' : Node} {t : List Contact} {a? : Option α}
      (now : Instant) (h : Goes E (k now n) n t a? n') : Goes E (.read k) n t a? n'
  | write {p : Program Node α} {n s n' : Node} {t : List Contact} {a? : Option α}
      (h : Goes E p s t a? n') : Goes E (.write s p) n t a? n'
  | send {dest : Address} {m : Message} {limit : Option Duration} {k : Outcome → Program Node α}
      {n n₁ n' : Node} {t : List Contact} {a? : Option α} (o : Outcome) (he : E n dest m o n₁)
      (h : Goes E (k o) n₁ t a? n') : Goes E (.send dest m limit k) n (⟨n, dest, m, o⟩ :: t) a? n'

variable {E : Surroundings} {t : List Contact}

/-- Two programs have come as far as the first one has, or the first one has ended and the second
one gone on. -/
theorem Goes.bind_cases {p : Program Node α} {f : α → Program Node β} {c? : Option β}
    (h : Goes E (p.bind f) n t c? n') :
    (c? = none ∧ Goes E p n t none n') ∨
      ∃ t₁ a n₁ t₂, Goes E p n t₁ (some a) n₁ ∧ Goes E (f a) n₁ t₂ c? n' ∧ t = t₁ ++ t₂ := by
  induction p generalizing n t with
  | done a => exact .inr ⟨[], a, n, t, .done, h, rfl⟩
  | read k ih =>
    cases h with
    | pause => exact .inl ⟨rfl, .pause⟩
    | read now h =>
      obtain ⟨hnone, hp⟩ | ⟨t₁, a, n₁, t₂, hp, hf, ht⟩ := ih now n h
      · exact .inl ⟨hnone, .read now hp⟩
      · exact .inr ⟨t₁, a, n₁, t₂, .read now hp, hf, ht⟩
  | write s p ih =>
    cases h with
    | pause => exact .inl ⟨rfl, .pause⟩
    | write h =>
      obtain ⟨hnone, hp⟩ | ⟨t₁, a, n₁, t₂, hp, hf, ht⟩ := ih h
      · exact .inl ⟨hnone, .write hp⟩
      · exact .inr ⟨t₁, a, n₁, t₂, .write hp, hf, ht⟩
  | send dest m limit k ih =>
    cases h with
    | pause => exact .inl ⟨rfl, .pause⟩
    | send o he h =>
      obtain ⟨hnone, hp⟩ | ⟨t₁, a, n₁, t₂, hp, hf, rfl⟩ := ih o h
      · exact .inl ⟨hnone, .send o he hp⟩
      · exact .inr ⟨_, a, n₁, t₂, .send o he hp, hf, rfl⟩

/-- A run to the end of a program whose messages are all answered by a rule, while the node does
nothing else. -/
def follow (answer : Address → Message → Outcome) :
    Program Node α → Node → List Contact × α × Node
  | .done a, n => ([], a, n)
  | .read k, n => follow answer (k 0 n) n
  | .write s p, _ => follow answer p s
  | .send dest m _ k, n =>
    let rest := follow answer (k (answer dest m)) n
    (⟨n, dest, m, answer dest m⟩ :: rest.1, rest.2)

/-- A rule that answers as the surroundings may answer is followed among them. -/
theorem Goes.of_rule {answer : Address → Message → Outcome}
    (hanswer : ∀ n dest m, E n dest m (answer dest m) n) (p : Program Node α) (n : Node) :
    Goes E p n (follow answer p n).1 (some (follow answer p n).2.1) (follow answer p n).2.2 := by
  induction p generalizing n with
  | done a => exact .done
  | read k ih => exact .read 0 (ih 0 n n)
  | write s p ih => exact .write (ih s)
  | send dest m limit k ih => exact .send _ (hanswer n dest m) (ih _ n)

theorem goes_follow (answer : Address → Message → Outcome) (p : Program Node α) (n : Node) :
    Goes restless p n (follow answer p n).1 (some (follow answer p n).2.1)
      (follow answer p n).2.2 :=
  .of_rule (fun _ _ _ => rfl) p n

end OnionTunnel.Node
