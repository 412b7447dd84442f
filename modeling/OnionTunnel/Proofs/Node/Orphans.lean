import OnionTunnel.Proofs.Node.FailedCells
import OnionTunnel.Proofs.Node.Owing
import OnionTunnel.Proofs.Node.OwnSessions

/-!
# Extensions leave no orphans

While a hop waits for the handshake of a next hop, the link that it extends can be extended by
another task or dropped. In whatever order that comes about, the session at the next hop has an owner
or is let go: each link that a next hop has granted is what some link goes on to, or the next hop has
been told to drop it. A link that goes on keeps to where it goes on to for as long as it is there, so
one extension of it succeeds at most.

## Implementation notes

Everything that a node has under way may be in between: cells and destroys for this link and others,
accepted handshakes, and what clients and the node itself ask for. A hop numbers a new link like its
session; if a stale link had that number, the new one would take its place and its downstream would
be lost. Runs in which that comes about are left out. Without accepted handshakes there are none.
-/

namespace OnionTunnel.Node

open Scene

variable {a dest : Address} {m : Message} {n n' : Node} {next : Downstream} {id : UInt32} {t : Task}
  {limit : Option Duration} {k : Outcome → Program Node Unit} {now : Instant}

/-! ### Tasks -/

/-- A task waits for its session to be accepted, or it is tidy from any node on in which its own link
would be new. -/
inductive Task.Minds (a : Address) (t : Task) : Prop
  | asks {hostkey handshake : Bytes} {limit : Option Duration} {k : Outcome → Program Node Unit}
      (hnumber : t.number? = none) (hjob : t.job = .peer (.incomingHandshake1 hostkey handshake))
      (hrest : t.rest = .send a (.incomingHandshake1 hostkey handshake) limit k)
      (hk : ∀ o n, n.sessionService = a → (∀ id, granted? o = some id → n.links.get? id = none) →
        Tidy a t.job n (k o))
  | tidies (h : ∀ n, n.sessionService = a → (t.job.accepts = true → t.ended = false →
        ∀ id, t.number? = some id → n.links.get? id = none) → Tidy a t.job n t.rest)

theorem Task.Minds.tidy (h : ∀ n, n.sessionService = a → Tidy a t.job n t.rest) : t.Minds a :=
  .tidies fun n hn _ => h n hn

/-- A task goes on after a message as it minds. -/
theorem Task.Minds.sends (h : t.Minds n.sessionService) (hrest : t.rest = .send dest m limit k) :
    (t.number? = none ∧ t.job.accepts = true ∧ dest = n.sessionService ∧
      ∀ o n', n'.sessionService = n.sessionService →
        (∀ id, granted? o = some id → n'.links.get? id = none) →
          Tidy n.sessionService t.job n' (k o)) ∨
    (t.job.relays = true → ∀ o link, grant? m o = some link → ∀ n', Owes ⟨dest, link⟩ n' (k o)) ∧
      ∀ o n', n'.sessionService = n.sessionService → Tidy n.sessionService t.job n' (k o) := by
  cases h with
  | asks hnumber hjob hasks hk =>
    cases hrest.symm.trans hasks
    exact .inl ⟨hnumber, by rw [hjob]; rfl, rfl, hk⟩
  | tidies h =>
    -- What follows a message does not depend on the links before it.
    have hsend := h { n with links := .empty } rfl fun _ _ id _ => Table.get?_empty id
    rw [hrest] at hsend
    cases hsend with
    | send hgrant hnext => exact .inr ⟨hgrant, hnext⟩

theorem Task.Minds.settle (h : t.Minds n.sessionService)
    (hrun : ∀ dest m limit k, t.rest ≠ .send dest m limit k)
    (hfree : t.job.accepts = true → t.ended = false →
      ∀ id, t.number? = some id → n.links.get? id = none) (now : Instant) :
    Reached n.sessionService t.job n (settle now t.rest n).2 t.rest (settle now t.rest n).1 := by
  cases h with
  | asks _ _ hrest _ => exact (hrun _ _ _ _ hrest).elim
  | tidies h => exact (h n rfl hfree).settle rfl now

namespace Scene

variable {S S' : Scene} {i : Nat} {o : Outcome}

/-- Some link goes on to a downstream, or some task owes that. -/
def Accounted (S : Scene) (next : Downstream) : Prop :=
  Records S.node next ∨ ∃ t ∈ S.tasks, ∀ n, Owes next n t.rest

/-- What comes of a message of a task: the node's own session service answers, or others do. -/
def outcome (S : Scene) (now : Instant) (dest : Address) (m : Message) (o : Outcome) : Outcome :=
  if dest = S.node.sessionService then (ownExchange now m S.node.registry).1 else o

/-- A move by which a next hop grants a link to a task that handles a cell. -/
inductive Grants (S : Scene) : Move → Downstream → Prop
  | intro {now : Instant} {i : Nat} {o : Outcome} {t : Task} {dest : Address} {m : Message}
      {limit : Option Duration} {k : Outcome → Program Node Unit} {link : UInt32}
      (ht : S.tasks[i]? = some t) (hjob : t.job.relays = true) (hrest : t.rest = .send dest m limit k)
      (hgrant : grant? m (S.outcome now dest m o) = some link) :
      Grants S (.go now i o) ⟨dest, link⟩

/-- A move by which a task has told a next hop to drop a link. -/
inductive Tells (S : Scene) : Move → Downstream → Prop
  | intro {now : Instant} {i : Nat} {o : Outcome} {t : Task} {next : Downstream}
      {limit : Option Duration} {k : Outcome → Program Node Unit} (ht : S.tasks[i]? = some t)
      (hrest : t.rest = .send next.address (.tunnelDestroy next.link) limit k) :
      Tells S (.go now i o) next

/-- A move by which a link is extended. -/
def Joins (S : Scene) (m : Move) (id : UInt32) (next : Downstream) : Prop :=
  S.node.links.extend id next = .ok (S.step m).node.links

/-- A new link takes the place of none. -/
def Admits (S : Scene) : Move → Prop
  | .go _ i _ => ∀ t, S.tasks[i]? = some t → t.job.accepts = true → t.ended = false →
      ∀ id, t.number? = some id → S.node.links.get? id = none
  | _ => True

/-- What is true of a move that is admitted: each link that went on stays or is accounted for, and so
is all that a task owed and what a next hop grants. -/
structure Follows (S : Scene) (m : Move) : Prop where
  service : (S.step m).node.sessionService = S.node.sessionService
  minds : ∀ t ∈ (S.step m).tasks, t.Minds S.node.sessionService
  links : ∀ id link next, S.node.links.get? id = some link → link.downstream? = some next →
    (S.step m).node.links.get? id = some link ∨
      (S.step m).node.links.get? id = none ∧ (S.step m).Accounted next
  owed : ∀ t ∈ S.tasks, ∀ next, (∀ n, Owes next n t.rest) →
    (S.step m).Accounted next ∨ Tells S m next
  granted : ∀ next, Grants S m next → (S.step m).Accounted next

/-! ### Moves -/

theorem eq_or_mem_set {tasks : List Task} {t₁ : Task} (t' : Task) (ht : tasks[i]? = some t)
    (h : t₁ ∈ tasks) : t₁ = t ∨ t₁ ∈ tasks.set i t' := by
  obtain ⟨j, hj⟩ := List.mem_iff_getElem?.1 h
  by_cases hij : i = j
  · subst hij
    exact .inl (Option.some.inj (hj.symm.trans ht))
  · refine .inr (List.mem_of_getElem? (i := j) ?_)
    rw [List.getElem?_set_ne hij, hj]

theorem mem_set {tasks : List Task} (ht : tasks[i]? = some t) (t' : Task) :
    t' ∈ tasks.set i t' := by
  obtain ⟨hi, -⟩ := List.getElem?_eq_some_iff.1 ht
  exact List.mem_set hi t'

/-- A move that leaves links and tasks alone. -/
theorem Follows.of_same {mv : Move} (hminds : ∀ t ∈ S.tasks, t.Minds S.node.sessionService)
    (hservice : (S.step mv).node.sessionService = S.node.sessionService)
    (hlinks : (S.step mv).node.links = S.node.links) (htasks : (S.step mv).tasks = S.tasks)
    (hgrants : ∀ next, ¬ Grants S mv next) : Follows S mv where
  service := hservice
  minds := htasks ▸ hminds
  links _ _ _ hlink _ := .inl (hlinks ▸ hlink)
  owed t ht _ howes := .inl (.inr ⟨t, htasks ▸ ht, howes⟩)
  granted next h := (hgrants next h).elim

/-- A node takes up a job. -/
theorem follows_begin (hminds : ∀ t ∈ S.tasks, t.Minds S.node.sessionService) (now : Instant)
    (job : Job) : Follows S (.begin now job) := by
  cases haccepts : job.accepts with
  | true =>
    obtain ⟨hostkey, handshake, rfl⟩ := job.offer_of_accepts haccepts
    obtain ⟨k, hsettle, hk⟩ := settle_offer_tidy now hostkey handshake S.node
    let job := Job.peer (.incomingHandshake1 hostkey handshake)
    have hstep : S.step (.begin now job) = ⟨S.node, ⟨job, none, .send S.node.sessionService
        (.incomingHandshake1 hostkey handshake) none k⟩ :: S.tasks, S.accepted⟩ := by
      simp only [step, Task.begin, job, hsettle]
      rfl
    refine ⟨?_, ?_, ?_, ?_, by rintro _ ⟨⟩⟩
    · rw [hstep]
    · rw [hstep]
      intro t ht
      obtain rfl | ht := List.mem_cons.1 ht
      · exact .asks rfl rfl rfl hk
      · exact hminds t ht
    · rw [hstep]
      exact fun _ _ _ hlink _ => .inl hlink
    · rw [hstep]
      exact fun t ht _ howes => .inl (.inr ⟨t, List.mem_cons_of_mem _ ht, howes⟩)
  | false =>
    obtain ⟨hservice, htidy, hlinks, -, -⟩ := (job.tidy haccepts S.node).settle rfl now
    refine ⟨hservice, ?_, ?_, ?_, by rintro _ ⟨⟩⟩
    · intro t ht
      obtain rfl | ht := List.mem_cons.1 ht
      · exact .tidy htidy
      · exact hminds t ht
    · intro id link next hlink hnext
      refine (hlinks id link next hlink hnext).imp_right (And.imp_right (Or.imp_right ?_))
      exact fun howes => ⟨_, List.mem_cons_self, howes⟩
    · exact fun t ht _ howes => .inl (.inr ⟨t, List.mem_cons_of_mem _ ht, howes⟩)

/-- A task runs up to its next message. -/
theorem follows_settle (hminds : ∀ t ∈ S.tasks, t.Minds S.node.sessionService)
    (ht : S.tasks[i]? = some t) (hrun : ∀ dest m limit k, t.rest ≠ .send dest m limit k)
    (hadmits : S.Admits (.go now i o)) : Follows S (.go now i o) := by
  have hmem := List.mem_of_getElem? ht
  obtain ⟨hservice, htidy, hlinks, -, howed⟩ :=
    (hminds t hmem).settle hrun (hadmits t ht) now
  have hstep : S.step (.go now i o) = _ := step_go_settle ht hrun
  have hnew : { t with rest := (settle now t.rest S.node).1 } ∈
      (S.step (.go now i o)).tasks := by
    rw [hstep]
    exact mem_set ht _
  refine ⟨by rw [hstep]; exact hservice, ?_, ?_, ?_, ?_⟩
  · rw [hstep]
    intro t' ht'
    obtain ht' | rfl := List.mem_or_eq_of_mem_set ht'
    · exact hminds t' ht'
    · exact .tidy htidy
  · intro id link next hlink hnext
    have hfate := hlinks id link next hlink hnext
    rw [← show (S.step (.go now i o)).node = (settle now t.rest S.node).2 by rw [hstep]] at hfate
    exact hfate.imp_right (And.imp_right (Or.imp_right fun howes => ⟨_, hnew, howes⟩))
  · intro t₁ ht₁ next howes
    left
    obtain rfl | ht₁ := eq_or_mem_set { t with rest := (settle now t.rest S.node).1 } ht ht₁
    · have hfate := howed next (howes S.node)
      rw [← show (S.step (.go now i o)).node = (settle now t₁.rest S.node).2 by rw [hstep]]
        at hfate
      exact hfate.imp_right fun howes' => ⟨_, hnew, howes'⟩
    · refine .inr ⟨t₁, ?_, howes⟩
      rw [hstep]
      exact ht₁
  · rintro next ⟨ht', -, hrest, -⟩
    obtain rfl := Option.some.inj (ht.symm.trans ht')
    exact (hrun _ _ _ _ hrest).elim

/-- The scene after the answer to a message of a task. -/
theorem step_go_sends (now : Instant) (o : Outcome) (ht : S.tasks[i]? = some t)
    (hrest : t.rest = .send dest m limit k) :
    (S.step (.go now i o)).node.sessionService = S.node.sessionService ∧
    (S.step (.go now i o)).node.links = S.node.links ∧
    ∃ t', (S.step (.go now i o)).tasks = S.tasks.set i t' ∧ t'.job = t.job ∧
      t'.rest = k (S.outcome now dest m o) ∧
      (t.number? = none → t.job.accepts = true → dest = S.node.sessionService →
        t'.number? = granted? (S.outcome now dest m o)) := by
  unfold outcome
  split
  · next hdest =>
    subst hdest
    rw [step_go_answered ht hrest]
    refine ⟨rfl, rfl, _, rfl, rfl, rfl, ?_⟩
    intro hnumber haccepts _
    simp [Task.answered, hnumber, haccepts]
  · next hother =>
    rw [step_go_other ht hrest hother]
    exact ⟨rfl, rfl, _, rfl, rfl, rfl, fun _ _ hdest => (hother hdest).elim⟩

/-- The message of a task is answered. -/
theorem follows_send (hminds : ∀ t ∈ S.tasks, t.Minds S.node.sessionService)
    (ht : S.tasks[i]? = some t) (hrest : t.rest = .send dest m limit k) :
    Follows S (.go now i o) := by
  obtain ⟨hservice, hlinks, t', htasks, hjob, hrest', hnumber'⟩ :=
    step_go_sends now o ht hrest
  have hmem := List.mem_of_getElem? ht
  have hnew : t' ∈ (S.step (.go now i o)).tasks := htasks ▸ mem_set ht t'
  refine ⟨hservice, ?_, fun _ _ _ hlink _ => .inl (hlinks ▸ hlink), ?_, ?_⟩
  · rw [htasks]
    intro t₁ ht₁
    obtain ht₁ | rfl := List.mem_or_eq_of_mem_set ht₁
    · exact hminds t₁ ht₁
    · obtain ⟨hnumber, haccepts, hdest, hk⟩ | ⟨-, hk⟩ := (hminds t hmem).sends hrest
      · refine .tidies fun n hn hfree => ?_
        rw [hjob, hrest']
        cases hended : t₁.ended with
        | true =>
          rw [Task.ended, hrest'] at hended
          split at hended
          · next hdone =>
            rw [hdone]
            exact .done
          · cases hended
        | false =>
          refine hk _ n hn fun id hid => hfree (hjob ▸ haccepts) hended id ?_
          rw [hnumber' hnumber haccepts hdest, hid]
      · refine .tidy fun n hn => ?_
        rw [hjob, hrest']
        exact hk _ n hn
  · intro t₁ ht₁ next howes
    obtain rfl | ht₁ := eq_or_mem_set t' ht ht₁
    · have hsend := howes S.node
      rw [hrest] at hsend
      cases hsend with
      | tells => exact .inr (.intro ht hrest)
      | send h => exact .inl (.inr ⟨t', hnew, fun n => hrest' ▸ h _ n⟩)
    · exact .inl (.inr ⟨t₁, htasks ▸ ht₁, howes⟩)
  · rintro _ ⟨ht', hrelays, hsends, hgrant⟩
    obtain rfl := Option.some.inj (ht.symm.trans ht')
    cases hrest.symm.trans hsends
    obtain ⟨-, haccepts, -⟩ | ⟨howes, -⟩ := (hminds t hmem).sends hrest
    · obtain ⟨_, _, hoffer⟩ := t.job.offer_of_accepts haccepts
      rw [hoffer] at hrelays
      cases hrelays
    · exact .inr ⟨t', hnew, fun n => hrest' ▸ howes hrelays _ _ hgrant n⟩

theorem follows_of_admits {mv : Move} (hminds : ∀ t ∈ S.tasks, t.Minds S.node.sessionService)
    (hadmits : S.Admits mv) : Follows S mv := by
  cases mv with
  | begin now job => exact follows_begin hminds now job
  | go now i o =>
    cases ht : S.tasks[i]? with
    | none =>
      have hstep : S.step (.go now i o) = S := by simp only [step, ht]
      refine .of_same hminds (by rw [hstep]) (by rw [hstep]) (by rw [hstep]) ?_
      rintro _ ⟨ht', -, -, -⟩
      cases ht.symm.trans ht'
    | some t =>
      by_cases hrun : ∀ dest m limit k, t.rest ≠ .send dest m limit k
      · exact follows_settle hminds ht hrun hadmits
      · push Not at hrun
        obtain ⟨dest, m, limit, k, hrest⟩ := hrun
        exact follows_send hminds ht hrest
  | request now m => exact .of_same hminds rfl rfl rfl (by rintro _ ⟨⟩)
  | expire now limit => exact .of_same hminds rfl rfl rfl (by rintro _ ⟨⟩)

/-! ### Histories -/

/-- A scene unfolds: the scenes that it comes to and the moves made there, and the scene at the end.
Every move is admitted. -/
inductive Unfolds : Scene → List (Scene × Move) → Scene → Prop
  | ends {S : Scene} : Unfolds S [] S
  | moves {S S' : Scene} {rest : List (Scene × Move)} (mv : Move) (hadmits : S.Admits mv)
      (h : Unfolds (S.step mv) rest S') : Unfolds S ((S, mv) :: rest) S'

/-- A history that goes on from a move is one up to it and one from there. -/
theorem Unfolds.split {S₀ : Scene} {before after : List (Scene × Move)} {mv : Move}
    (h : Unfolds S₀ (before ++ (S, mv) :: after) S') :
    Unfolds S₀ before S ∧ S.Admits mv ∧ Unfolds (S.step mv) after S' := by
  induction before generalizing S₀ with
  | nil =>
    cases h with
    | moves _ hadmits h => exact ⟨.ends, hadmits, h⟩
  | cons e before ih =>
    cases h with
    | moves mv' hadmits' h =>
      obtain ⟨hbefore, hadmits, hafter⟩ := ih h
      exact ⟨.moves mv' hadmits' hbefore, hadmits, hafter⟩

theorem Unfolds.minds {history : List (Scene × Move)} (h : Unfolds S history S')
    (hminds : ∀ t ∈ S.tasks, t.Minds S.node.sessionService) :
    ∀ t ∈ S'.tasks, t.Minds S'.node.sessionService := by
  induction h with
  | ends => exact hminds
  | moves mv hadmits _ ih =>
    obtain hfollows := follows_of_admits hminds hadmits
    exact ih (hfollows.service ▸ hfollows.minds)

theorem Unfolds.service {history : List (Scene × Move)} (h : Unfolds S history S')
    (hminds : ∀ t ∈ S.tasks, t.Minds S.node.sessionService) :
    S'.node.sessionService = S.node.sessionService := by
  induction h with
  | ends => rfl
  | moves mv hadmits _ ih =>
    obtain hfollows := follows_of_admits hminds hadmits
    exact (ih (hfollows.service ▸ hfollows.minds)).trans hfollows.service

/-- What is accounted for stays so, until the next hop is told to drop it. -/
theorem Unfolds.accounted {history : List (Scene × Move)} (h : Unfolds S history S')
    (hminds : ∀ t ∈ S.tasks, t.Minds S.node.sessionService) (hnext : S.Accounted next) :
    S'.Accounted next ∨ ∃ e ∈ history, Tells e.1 e.2 next := by
  induction h with
  | ends => exact .inl hnext
  | @moves S S' rest mv hadmits _ ih =>
    have hfollows := follows_of_admits hminds hadmits
    have hstep : (S.step mv).Accounted next ∨ Tells S mv next := by
      obtain ⟨id, link, hlink, hdown⟩ | ⟨t, ht, howes⟩ := hnext
      · obtain hkept | ⟨-, haccounted⟩ := hfollows.links id link next hlink hdown
        · exact .inl (.inl ⟨id, link, hkept, hdown⟩)
        · exact .inl haccounted
      · exact hfollows.owed t ht next howes
    obtain haccounted | htells := hstep
    · refine (ih (hfollows.service ▸ hfollows.minds) haccounted).imp_right ?_
      rintro ⟨e, he, htells⟩
      exact ⟨e, List.mem_cons_of_mem _ he, htells⟩
    · exact .inr ⟨(S, mv), List.mem_cons_self, htells⟩

/-- A link that goes on stays as it is, until it is gone. -/
theorem Unfolds.keeps {history : List (Scene × Move)} (h : Unfolds S history S') {link : Link}
    (hminds : ∀ t ∈ S.tasks, t.Minds S.node.sessionService)
    (hlink : S.node.links.get? id = some link) (hnext : link.downstream? = some next)
    (hthere : ∀ e ∈ history, (e.1.step e.2).node.links.get? id ≠ none) :
    S'.node.links.get? id = some link ∧ ∀ e ∈ history, e.1.node.links.get? id = some link := by
  induction h with
  | ends => exact ⟨hlink, List.forall_mem_nil _⟩
  | @moves S S' rest mv hadmits _ ih =>
    have hfollows := follows_of_admits hminds hadmits
    obtain hkept | ⟨hgone, -⟩ := hfollows.links id link next hlink hnext
    · obtain ⟨hend, hall⟩ := ih (hfollows.service ▸ hfollows.minds) hkept
        fun e he => hthere e (List.mem_cons_of_mem _ he)
      refine ⟨hend, List.forall_mem_cons.2 ⟨hlink, hall⟩⟩
    · exact (hthere (S, mv) List.mem_cons_self hgone).elim

/-! ### A task on its own -/

theorem Unfolds.append {S₁ : Scene} {history history' : List (Scene × Move)}
    (h : Unfolds S history S₁) (h' : Unfolds S₁ history' S') : Unfolds S (history ++ history') S' := by
  induction h with
  | ends => exact h'
  | moves mv hadmits _ ih => exact .moves mv hadmits (ih h')

/-- A history of one move. -/
theorem Unfolds.once {mv : Move} (hadmits : S.Admits mv) (hstep : S.step mv = S') :
    Unfolds S [(S, mv)] S' := by
  subst hstep
  exact .moves mv hadmits .ends

/-- A scene in which one task is at another place of its program and the node is another. -/
def resting (S : Scene) (i : Nat) (t : Task) (p : Program Node Unit) (n : Node) : Scene :=
  ⟨n, S.tasks.set i { t with rest := p }, S.accepted⟩

section Alone
variable {p : Program Node Unit}

theorem getElem?_resting (ht : S.tasks[i]? = some t) :
    (S.resting i t p n).tasks[i]? = some { t with rest := p } :=
  List.getElem?_set_self (List.getElem?_eq_some_iff.1 ht).1

/-- A task goes on that is not to accept a session. -/
theorem admits_resting (ht : S.tasks[i]? = some t) (haccepts : t.job.accepts = false)
    (now : Instant) (o : Outcome) : (S.resting i t p n).Admits (.go now i o) := by
  intro t' ht' hthere
  rw [getElem?_resting ht] at ht'
  cases ht'
  cases haccepts.symm.trans hthere

/-- A task runs up to its next message. -/
theorem unfolds_settle (ht : S.tasks[i]? = some t) (haccepts : t.job.accepts = false)
    (now : Instant) (p : Program Node Unit) (n : Node) :
    ∃ history, Unfolds (S.resting i t p n) history
      (S.resting i t (settle now p n).1 (settle now p n).2) := by
  by_cases hrun : ∀ dest m limit k, p ≠ .send dest m limit k
  · have hstep : (S.resting i t p n).step (.go now i (.ok none)) =
        S.resting i t (settle now p n).1 (settle now p n).2 := by
      rw [step_go_settle (getElem?_resting ht) hrun]
      simp only [resting, List.set_set]
    exact ⟨_, .once (admits_resting ht haccepts now (.ok none)) hstep⟩
  · push Not at hrun
    obtain ⟨dest, m, limit, k, rfl⟩ := hrun
    exact ⟨[], .ends⟩

/-- A task has sent a message to others in a history, and something has come of it. -/
def Includes (S : Scene) (i : Nat) (t : Task) (history : List (Scene × Move)) (s : Sent) : Prop :=
  ∃ before n limit k now after, history = before ++
    (S.resting i t (.send s.dest s.message limit k) n, .go now i s.outcome) :: after ∧
      s.dest ≠ n.sessionService

theorem Includes.append {history : List (Scene × Move)} {s : Sent} (h : S.Includes i t history s)
    (front : List (Scene × Move)) : S.Includes i t (front ++ history) s := by
  obtain ⟨before, n, limit, k, now, after, rfl, hother⟩ := h
  exact ⟨front ++ before, n, limit, k, now, after, by rw [List.append_assoc], hother⟩

/-- A run of a task with nothing in between is one of the histories of a scene. -/
theorem unfolds_replay (ht : S.tasks[i]? = some t) (haccepts : t.job.accepts = false) (now : Instant)
    (others : Address → Message → Outcome) (p : Program Node Unit) (n : Node) : ∃ history,
      Unfolds (S.resting i t (settle now p n).1 (settle now p n).2) history
        (S.resting i t (.done ()) (replay now others p n).2.2) ∧
      ∀ s ∈ (replay now others p n).1, S.Includes i t history s := by
  induction p generalizing n with
  | done a => exact ⟨[], .ends, by simp [replay]⟩
  | read k ih => exact ih now n n
  | write s p ih => exact ih s
  | send dest m limit k ih =>
    rw [replay]
    split
    · next hown =>
      subst hown
      obtain ⟨history, hrun, hsent⟩ := ih (ownExchange now m n.registry).1
        { n with registry := (ownExchange now m n.registry).2 }
      have hstep : (S.resting i t (.send n.sessionService m limit k) n).step (.go now i (.ok none)) =
          S.resting i t (k (ownExchange now m n.registry).1)
            { n with registry := (ownExchange now m n.registry).2 } := by
        rw [step_go_answered (getElem?_resting ht) rfl]
        simp only [Task.answered, haccepts, Bool.false_eq_true, if_false, Option.or_none]
        refine (gone_of_number i rfl).trans ?_
        simp only [resting, List.set_set]
      obtain ⟨between, hsettle⟩ := unfolds_settle ht haccepts now
        (k (ownExchange now m n.registry).1)
        { n with registry := (ownExchange now m n.registry).2 }
      refine ⟨_, (Unfolds.once (admits_resting ht haccepts now _) hstep).append
        (hsettle.append hrun), ?_⟩
      intro s hs
      exact ((hsent s hs).append between).append _
    · next hother =>
      obtain ⟨history, hrun, hsent⟩ := ih (others dest m) n
      have hstep : (S.resting i t (.send dest m limit k) n).step (.go now i (others dest m)) =
          S.resting i t (k (others dest m)) n := by
        rw [step_go_other (getElem?_resting ht) rfl hother]
        simp only [resting, List.set_set]
      obtain ⟨between, hsettle⟩ := unfolds_settle ht haccepts now (k (others dest m)) n
      refine ⟨_, (Unfolds.once (admits_resting ht haccepts now _) hstep).append
        (hsettle.append hrun), ?_⟩
      intro s hs
      obtain rfl | hs := List.mem_cons.1 hs
      · exact ⟨[], n, limit, k, now, _, rfl, hother⟩
      · exact ((hsent s hs).append between).append _

/-- A job is taken up and done with nothing in between. -/
theorem unfolds_job (job : Job) (haccepts : job.accepts = false) (now : Instant)
    (others : Address → Message → Outcome) (S : Scene) : ∃ history n' t, Unfolds S history
      ⟨n', t :: S.tasks, S.accepted⟩ ∧ t.job = job ∧ t.ended = true := by
  let t := (Task.begin now job S.node).1
  have ht : (S.step (.begin now job)).tasks[0]? = some t := rfl
  obtain ⟨history, hrun, -⟩ := unfolds_replay ht haccepts now others job.program S.node
  refine ⟨_, _, { t with rest := .done () }, .moves (.begin now job) trivial hrun, rfl, rfl⟩

end Alone

end Scene

/-- From a node with any links, cells and destroys are taken up and whatever else, and go on in any
order, with any answers of others. Once all is done, each link that a next hop has granted for an
extension is what some link goes on to, or the next hop has been told since to drop it. A link that
has been extended goes on there for as long as it is there, and is not extended again. -/
theorem extensions_leave_no_orphan {before after : List (Scene × Scene.Move)} {S S' : Scene}
    {mv : Scene.Move} (h : Unfolds (idle n) (before ++ (S, mv) :: after) S') :
    (∀ next, Grants S mv next → (∀ t ∈ S'.tasks, t.ended = true) →
      (∃ id link, S'.node.links.get? id = some link ∧ link.downstream? = some next) ∨
        ∃ e ∈ after, Tells e.1 e.2 next) ∧
    ∀ id next, Joins S mv id next →
      (∀ e ∈ after, (e.1.step e.2).node.links.get? id ≠ none) →
        (∃ peer, S'.node.links.get? id = some ⟨peer, some next⟩) ∧
          ∀ e ∈ after, ∀ next', ¬ Joins e.1 e.2 id next' := by
  obtain ⟨hbefore, hadmits, hafter⟩ := h.split
  have hminds := hbefore.minds nofun
  have hfollows := follows_of_admits hminds hadmits
  have hminds' : ∀ t ∈ (S.step mv).tasks, t.Minds (S.step mv).node.sessionService :=
    hfollows.service ▸ hfollows.minds
  constructor
  · intro next hgrants hended
    obtain (hrecords | ⟨t, ht, howes⟩) | htold := hafter.accounted hminds' (hfollows.granted next hgrants)
    · exact .inl hrecords
    · have hdone := hended t ht
      have howes := howes n
      obtain ⟨job, number?, rest⟩ := t
      cases rest with
      | done => cases howes
      | _ => cases hdone
    · exact .inr htold
  · intro id next hjoins hthere
    obtain ⟨peer, -, hlinks⟩ := extend_ok hjoins
    have hlink : (S.step mv).node.links.get? id = some ⟨peer, some next⟩ := by
      rw [hlinks]
      exact Table.get?_insert_self _ _ _
    obtain ⟨hend, hall⟩ := hafter.keeps hminds' hlink rfl hthere
    refine ⟨⟨peer, hend⟩, ?_⟩
    intro e he next' hagain
    obtain ⟨peer', hends, -⟩ := extend_ok hagain
    cases (hall e he).symm.trans hends

/-- A cell has asked a next hop for a link. Before the next hop grants it, another cell that is to
extend the same link has come and gone, and so has a destroy of it. -/
theorem extensions_leave_no_orphan_overtaken :
    ∃ (asks overtakes after : List (Scene × Scene.Move)) (n₁ n₂ : Node) (A B D : Task)
      (acc : UInt32 → Option Session) (mv : Scene.Move) (next : Downstream) (S' : Scene),
      A.job = .peer (.tunnelData 5 extensionCell) ∧ A.ended = false ∧
      B.job = .peer (.tunnelData 5 extensionCell) ∧ B.ended = true ∧
      D.job = .peer (.tunnelDestroy 5) ∧ D.ended = true ∧
      Unfolds (idle openedNode) asks ⟨n₁, [A], acc⟩ ∧
      Unfolds ⟨n₁, [A], acc⟩ overtakes ⟨n₂, [D, B, A], acc⟩ ∧
      Grants ⟨n₂, [D, B, A], acc⟩ mv next ∧
      Unfolds (idle openedNode) ((asks ++ overtakes) ++ (⟨n₂, [D, B, A], acc⟩, mv) :: after) S' ∧
      (∀ t ∈ S'.tasks, t.ended = true) ∧
      ((∃ id link, S'.node.links.get? id = some link ∧ link.downstream? = some next) ∨
        ∃ e ∈ after, Tells e.1 e.2 next) := by
  let job := Job.peer (.tunnelData 5 extensionCell)
  let others : Address → Message → Outcome := fun _ _ => .ok (some (.sessionHandshake2 7 []))
  let begun := (idle openedNode).step (.begin 0 job)
  -- The first cell is peeled, and its handshake is on the way to the next hop.
  have hA : begun.tasks[0]? = some (Task.begin 0 job openedNode).1 := rfl
  obtain ⟨history, hrun, hsent⟩ := unfolds_replay hA rfl 0 others job.program openedNode
  have hanswer : Comes openedNode job.program fun t _ _ => ∃ s, t = [s] ∧
      s.dest = farHop.address ∧
      ∃ hostkey handshake, s.message = .incomingHandshake1 hostkey handshake := by
    refine Comes.bind extends_openedNode.comes_answer ?_
    rintro t reply n' ⟨s, rfl, hdest, hmessage, -⟩
    exact Comes.pure ⟨s, rfl, hdest, hmessage⟩
  obtain ⟨s, ht, -, hostkey, handshake, hmessage⟩ :=
    hanswer _ _ _ (runs_replay 0 others job.program openedNode)
  have hs : s ∈ (replay 0 others job.program openedNode).1 := ht ▸ List.mem_singleton_self s
  obtain ⟨asks, n₁, limit, k, now, rest, rfl, hother⟩ := hsent s hs
  obtain ⟨hasks, -, -⟩ := hrun.split
  let A : Task := { (Task.begin 0 job openedNode).1 with rest := .send s.dest s.message limit k }
  have hbegun : Unfolds (idle openedNode) ((idle openedNode, .begin 0 job) :: asks)
      ⟨n₁, [A], fun _ => none⟩ := .moves (.begin 0 job) trivial hasks
  -- The others come and go meanwhile.
  obtain ⟨_, _, B, hB, hjobB, hendedB⟩ := unfolds_job job rfl 0
    (fun _ _ => .ok (some (.sessionHandshake2 8 []))) ⟨n₁, [A], fun _ => none⟩
  obtain ⟨_, n₂, D, hD, hjobD, hendedD⟩ := unfolds_job (.peer (.tunnelDestroy 5)) rfl 0 others
    ⟨_, [B, A], fun _ => none⟩
  have hovertakes := hB.append hD
  let S : Scene := ⟨n₂, [D, B, A], fun _ => none⟩
  have hservice : n₂.sessionService = n₁.sessionService := hovertakes.service (hbegun.minds nofun)
  have hotherS : s.dest ≠ n₂.sessionService := hservice ▸ hother
  -- The next hop grants the link.
  have hA₂ : S.tasks[2]? = some A := rfl
  have hgrants : Grants S (.go 0 2 s.outcome) ⟨s.dest, 7⟩ := by
    refine .intro hA₂ rfl rfl ?_
    rw [outcome, if_neg hotherS, hmessage, outcome_of_mem_replay _ _ hs]
    rfl
  have hstep : S.step (.go 0 2 s.outcome) = S.resting 2 A (k s.outcome) n₂ :=
    step_go_other hA₂ rfl hotherS
  obtain ⟨_, hsettle⟩ := unfolds_settle hA₂ rfl 0 (k s.outcome) n₂
  obtain ⟨_, hdone, -⟩ := unfolds_replay hA₂ rfl 0 others (k s.outcome) n₂
  have hafter := hsettle.append hdone
  rw [← hstep] at hafter
  have hall := (hbegun.append hovertakes).append (.moves _ (admits_resting hA₂ rfl 0 _) hafter)
  have hended : ∀ t ∈ (S.resting 2 A (.done ()) (replay 0 others (k s.outcome) n₂).2.2).tasks,
      t.ended = true := by
    intro t ht
    simp only [resting, S, List.set_cons_succ, List.set_cons_zero, List.mem_cons,
      List.not_mem_nil, or_false] at ht
    obtain rfl | rfl | rfl := ht
    · exact hendedD
    · exact hendedB
    · rfl
  exact ⟨_, _, _, n₁, n₂, A, B, D, _, _, _, _, rfl, rfl, hjobB, hendedB, hjobD, hendedD, hbegun,
    hovertakes, hgrants, hall, hended, (extensions_leave_no_orphan hall).1 _ hgrants hended⟩

end OnionTunnel.Node
