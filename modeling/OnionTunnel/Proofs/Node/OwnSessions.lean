import OnionTunnel.Proofs.Node.Tasks

/-!
# Links keep to their sessions

A link is numbered like the session that was accepted for it. The two are kept in different tables,
and a session can go without its link: others can have it closed, and it can expire. If its number
comes up again while the link is there, the link gets hold of a session that is not its own.

It does not if no session comes in under the number of a link or of a task that is about one. Then
whatever a node does for a link, in any order and with any breaks, is done with the session that was
accepted for it.
-/

namespace OnionTunnel.Node

open SessionRegistry Scene

variable {D : Address → Message → Prop} {N : UInt32 → Identity → Prop} {n : Node} {S S' : Scene}
  {t : Task} {now : Instant} {id : UInt32} {peer : Identity} {x : Session} {r : SessionRegistry}

/-! ### Session requests -/

theorem ownExchange_established (now : Instant) (m : Message) (hx : r.holdings id = some x)
    (hstate : x.handshake.state = .established) :
    (ownExchange now m r).2.holdings id = some x ∨ (ownExchange now m r).2.holdings id = none := by
  unfold ownExchange
  split
  · exact .inl hx
  · exact handle_established now _ hx hstate

/-- A session that the session service accepts comes in under a number that no session had. -/
theorem ownExchange_accepts {hostkey handshake : Bytes}
    (h : granted? (ownExchange now (.incomingHandshake1 hostkey handshake) r).1 = some id) :
    r.holdings id = none ∧ ∃ x,
      (ownExchange now (.incomingHandshake1 hostkey handshake) r).2.holdings id = some x ∧
      x.peer = .ofHostkey hostkey ∧ x.handshake = ⟨.responder, .established⟩ := by
  obtain ⟨e, he⟩ | hok := (Message.incomingHandshake1 hostkey handshake).transmit_cases
  · simp only [ownExchange, he] at h
    cases h
  · simp only [ownExchange, hok, Message.canonical] at h ⊢
    obtain ⟨id', returned, y, hreply, hfree, hholdings, hanswered⟩ | ⟨hreply, -⟩ :=
      (@replies_incomingHandshake1 now r hostkey handshake).2
    · have hid : id' = id := by
        rw [hreply] at h
        obtain ⟨e, he⟩ | hok := (Message.sessionHandshake2 id' returned).transmit_cases
        · rw [Network.Outcome.ofReply, he] at h
          cases h
        · rw [Network.Outcome.ofReply, hok] at h
          exact Option.some.inj h
      subst hid
      refine ⟨hfree, y, ?_, hanswered.peer_eq, hanswered.handshake_eq⟩
      rw [hholdings, Function.update_self]
    · rw [hreply] at h
      cases h

theorem holdings_congr {r r' : SessionRegistry} (h : r'.sessions = r.sessions) :
    r'.holdings = r.holdings := by
  unfold holdings
  rw [h]

/-! ### What is kept -/

namespace Scene

/-- The session of a number, if there is one, is the one that was accepted for the link with the
number, and is held with the peer of the link. -/
inductive Guards (S : Scene) (id : UInt32) (peer : Identity) : Prop
  | intro {x : Session} (haccepted : S.accepted id = some x) (hpeer : x.peer = peer)
      (hstate : x.handshake = ⟨.responder, .established⟩)
      (hheld : S.node.registry.holdings id = none ∨ S.node.registry.holdings id = some x)

/-- What a task may send, and which links it may add, as far as its job and its number say. -/
structure Permits (S : Scene) (job : Job) (number? : Option UInt32) (D : Address → Message → Prop)
    (N : UInt32 → Identity → Prop) : Prop where
  accepts : job.accepts = true → ∀ dest m, ¬ D dest m
  link : ∀ id, job.link? = some id → ∀ dest m, D dest m →
    Serves S.node.sessionService id (fun _ => True) dest m ∧ number? = some id ∧
      ∃ peer, S.Guards id peer
  new : ∀ id peer, N id peer → number? = some id ∧ S.Guards id peer

/-- A task has ended, or it asks to have a session accepted, or it sends and adds what it may. -/
inductive Fits (S : Scene) (t : Task) : Prop
  | ended (h : t.ended = true)
  | asks {hostkey handshake : Bytes} {limit : Option Duration} {k : Outcome → Program Node Unit}
      (hnumber : t.number? = none) (hjob : t.job.accepts = true)
      (hrest : t.rest =
        .send S.node.sessionService (.incomingHandshake1 hostkey handshake) limit k)
      (hk : ∀ o n', n'.sessionService = S.node.sessionService →
        Tends S.node.sessionService (fun _ _ => False)
          (fun id peer => granted? o = some id ∧ peer = .ofHostkey hostkey) (fun _ => True) n' (k o))
  | tends {D : Address → Message → Prop} {N : UInt32 → Identity → Prop}
      (hpermits : S.Permits t.job t.number? D N)
      (hrest : ∀ n', n'.sessionService = S.node.sessionService →
        Tends S.node.sessionService D N (fun _ => True) n' t.rest)

/-- Every link is guarded, and every task fits. -/
structure Orderly (S : Scene) : Prop where
  links : ∀ id link, S.node.links.get? id = some link → S.Guards id link.peer
  tasks : ∀ t ∈ S.tasks, S.Fits t

/-- What is guarded before a move is guarded after it, as long as the number is engaged. -/
structure Keeps (S S' : Scene) : Prop where
  service : S'.node.sessionService = S.node.sessionService
  spares : S.Spares S'
  accepted : ∀ id, S.Engaged id → S'.accepted id = S.accepted id
  established : ∀ id x, S.node.registry.holdings id = some x → x.handshake.state = .established →
    S'.node.registry.holdings id = some x ∨ S'.node.registry.holdings id = none

theorem Guards.kept (h : S.Guards id peer) (hkeeps : Keeps S S') (hid : S.Engaged id) :
    S'.Guards id peer := by
  obtain ⟨haccepted, hpeer, hstate, hheld⟩ := h
  refine ⟨(hkeeps.accepted id hid).trans haccepted, hpeer, hstate, ?_⟩
  obtain hnone | hx := hheld
  · exact .inl (hkeeps.spares id hid hnone)
  · exact (hkeeps.established id _ hx (by rw [hstate])).symm

theorem Permits.kept {job : Job} {number? : Option UInt32} (h : S.Permits job number? D N)
    (hkeeps : Keeps S S') (hid : ∀ id, number? = some id → S.Engaged id) :
    S'.Permits job number? D N where
  accepts := h.accepts
  link id hlink dest m hd := by
    obtain ⟨hserves, hnumber, peer, hguards⟩ := h.link id hlink dest m hd
    rw [hkeeps.service]
    exact ⟨hserves, hnumber, peer, hguards.kept hkeeps (hid id hnumber)⟩
  new id peer hnew := by
    obtain ⟨hnumber, hguards⟩ := h.new id peer hnew
    exact ⟨hnumber, hguards.kept hkeeps (hid id hnumber)⟩

theorem engaged_of_task (ht : t ∈ S.tasks) (hended : t.ended = false)
    (hnumber : t.number? = some id) : S.Engaged id :=
  .inr ⟨t, ht, hended, hnumber⟩

theorem Fits.kept (h : S.Fits t) (ht : t ∈ S.tasks) (hkeeps : Keeps S S') : S'.Fits t := by
  cases hended : t.ended with
  | true => exact .ended hended
  | false =>
    cases h with
    | ended h => cases hended.symm.trans h
    | asks hnumber hjob hrest hk =>
      rw [← hkeeps.service] at hrest hk
      exact .asks hnumber hjob hrest hk
    | tends hpermits hrest =>
      rw [← hkeeps.service] at hrest
      exact .tends (hpermits.kept hkeeps fun _ => engaged_of_task ht hended) hrest

/-- A task that fits and sends a message asks to have a session accepted, or the message is one that
it may send. Either way it goes on as it may. -/
theorem Fits.sends {dest : Address} {m : Message} {limit : Option Duration}
    {k : Outcome → Program Node Unit} (h : S.Fits t) (hrest : t.rest = .send dest m limit k) :
    (∃ hostkey handshake, t.number? = none ∧ t.job.accepts = true ∧
      dest = S.node.sessionService ∧ m = .incomingHandshake1 hostkey handshake ∧
      ∀ o n', n'.sessionService = S.node.sessionService →
        Tends S.node.sessionService (fun _ _ => False)
          (fun id peer => granted? o = some id ∧ peer = .ofHostkey hostkey) (fun _ => True) n'
          (k o)) ∨
    ∃ D N, S.Permits t.job t.number? D N ∧ D dest m ∧
      ∀ o n', n'.sessionService = S.node.sessionService →
        Tends S.node.sessionService D N (fun _ => True) n' (k o) := by
  cases h with
  | ended hended => cases hended.symm.trans (ended_of_sends hrest)
  | @asks hostkey handshake _ _ hnumber hjob hasks hk =>
    cases hrest.symm.trans hasks
    exact .inl ⟨hostkey, handshake, hnumber, hjob, rfl, rfl, hk⟩
  | @tends D N hpermits htends =>
    have hsend := htends S.node rfl
    rw [hrest] at hsend
    cases hsend with
    | send hd hnext => exact .inr ⟨D, N, hpermits, hd, hnext⟩

/-- A move that keeps what is guarded, after which each link was there or is guarded, and each task
was there or fits. -/
theorem Orderly.move (h : S.Orderly) (hkeeps : Keeps S S')
    (hlinks : ∀ id link, S'.node.links.get? id = some link → S'.Guards id link.peer ∨
      ∃ link', S.node.links.get? id = some link' ∧ link'.peer = link.peer)
    (htasks : ∀ t ∈ S'.tasks, t ∈ S.tasks ∨ S'.Fits t) : S'.Orderly where
  links id link hlink := by
    obtain hguards | ⟨link', hlink', hpeer⟩ := hlinks id link hlink
    · exact hguards
    · rw [← hpeer]
      exact (h.links id link' hlink').kept hkeeps (.inl (contains_of_get? hlink'))
  tasks t ht := by
    obtain ht | hfits := htasks t ht
    · exact (h.tasks t ht).kept ht hkeeps
    · exact hfits

/-! ### Moves -/

/-- A change of the node beside its sessions keeps what is guarded. -/
theorem keeps_of_tended {tasks : List Task} {n' : Node} (h : Tended N S.node n')
    (hspares : S.Spares ⟨n', tasks, S.accepted⟩) : Keeps S ⟨n', tasks, S.accepted⟩ where
  service := h.service
  spares := hspares
  accepted _ _ := rfl
  established id x hx _ := by
    rw [← holdings_congr h.sessions] at hx
    exact .inl hx

/-- A node takes up a job. -/
theorem Orderly.begin (h : S.Orderly) (now : Instant) (job : Job)
    (hspares : S.Spares (S.step (.begin now job))) : (S.step (.begin now job)).Orderly := by
  cases haccepts : job.accepts with
  | false =>
    obtain ⟨hrest, htended⟩ := (job.tends haccepts S.node).settle now
    have hkeeps : Keeps S (S.step (.begin now job)) := keeps_of_tended htended hspares
    refine h.move hkeeps (fun id link hlink => (htended.links id link hlink).imp_left False.elim) ?_
    intro t ht
    obtain rfl | ht := List.mem_cons.1 ht
    · refine .inr (.tends (D := Faithfully S.node job) (N := fun _ _ => False) ⟨?_, ?_, ?_⟩ ?_)
      · intro htrue
        cases haccepts.symm.trans htrue
      · intro id hid dest m hd
        -- The link was there when the task began, so the task is about it, and the link is guarded.
        obtain ⟨hserves, hthere⟩ := hd id hid
        obtain ⟨link, hlink⟩ := Option.isSome_iff_exists.1 hthere
        rw [hkeeps.service]
        refine ⟨hserves, ?_, link.peer, (h.links id link hlink).kept hkeeps (.inl hthere)⟩
        show job.link?.filter S.node.links.contains = some id
        rw [show job.link? = some id from hid, Option.filter_some_pos hthere]
      · exact fun _ _ => False.elim
      · rw [hkeeps.service]
        exact hrest
    · exact .inl ht
  | true =>
    obtain ⟨hostkey, handshake, rfl⟩ := job.offer_of_accepts haccepts
    obtain ⟨k, hsettle, hk⟩ :=
      @settle_offer S.node.sessionService now hostkey handshake S.node
    simp only [step, Task.begin, hsettle] at hspares ⊢
    have htended : Tended (fun _ _ => False) S.node S.node := .refl _ _
    refine h.move (keeps_of_tended htended hspares) (fun id link hlink => .inr ⟨link, hlink, rfl⟩) ?_
    intro t ht
    obtain rfl | ht := List.mem_cons.1 ht
    · exact .inr (.asks rfl rfl rfl hk)
    · exact .inl ht

section Going
variable {i : Nat} {o : Outcome} {dest : Address} {m : Message} {limit : Option Duration}
  {k : Outcome → Program Node Unit}

/-- A task is replaced by what is left of it. -/
theorem Orderly.replaced {t' : Task} (h : S.Orderly) (hkeeps : Keeps S S')
    (htasks : S'.tasks = S.tasks.set i t') (hfits : S'.Fits t')
    (hlinks : ∀ id link, S'.node.links.get? id = some link → S'.Guards id link.peer ∨
      ∃ link', S.node.links.get? id = some link' ∧ link'.peer = link.peer) : S'.Orderly := by
  refine h.move hkeeps hlinks ?_
  intro t₁ ht₁
  rw [htasks] at ht₁
  obtain ht₁ | rfl := List.mem_or_eq_of_mem_set ht₁
  · exact .inl ht₁
  · exact .inr hfits

/-- A task that has nothing left to do does nothing. -/
theorem Orderly.rest (h : S.Orderly) (ht : S.tasks[i]? = some t) (hended : t.ended = true)
    (hspares : S.Spares (S.step (.go now i o))) : (S.step (.go now i o)).Orderly := by
  obtain ⟨job, number?, rest⟩ := t
  cases rest with
  | done a =>
    rw [step_go_settle ht (fun _ _ _ _ => nofun)] at hspares ⊢
    have htended : Tended (fun _ _ => False) S.node S.node := .refl _ _
    exact h.replaced (keeps_of_tended htended hspares) rfl (.ended rfl)
      fun id link hlink => .inr ⟨link, hlink, rfl⟩
  | _ => cases hended

/-- A task runs up to its next message. -/
theorem Orderly.settle (h : S.Orderly) (ht : S.tasks[i]? = some t) (hended : t.ended = false)
    (hrun : ∀ dest m limit k, t.rest ≠ .send dest m limit k)
    (hspares : S.Spares (S.step (.go now i o))) : (S.step (.go now i o)).Orderly := by
  rw [step_go_settle ht hrun] at hspares ⊢
  have hmem := List.mem_of_getElem? ht
  cases h.tasks t hmem with
  | ended htrue => cases hended.symm.trans htrue
  | asks _ _ hrest => exact (hrun _ _ _ _ hrest).elim
  | tends hpermits hrest =>
    obtain ⟨hrest', htended⟩ := (hrest S.node rfl).settle now
    have hkeeps := keeps_of_tended htended hspares
    have hpermits' := hpermits.kept hkeeps fun _ => engaged_of_task hmem hended
    rw [← htended.service] at hrest'
    refine h.replaced hkeeps rfl (.tends hpermits' hrest') ?_
    intro id link hlink
    exact (htended.links id link hlink).imp_left fun hnew => (hpermits'.new id _ hnew).2

/-- Something comes of a message to others. -/
theorem Orderly.other (h : S.Orderly) (ht : S.tasks[i]? = some t)
    (hrest : t.rest = .send dest m limit k) (hother : dest ≠ S.node.sessionService)
    (hspares : S.Spares (S.step (.go now i o))) : (S.step (.go now i o)).Orderly := by
  rw [step_go_other ht hrest hother] at hspares ⊢
  have hmem := List.mem_of_getElem? ht
  have htended : Tended (fun _ _ => False) S.node S.node := .refl _ _
  have hkeeps := keeps_of_tended htended hspares
  obtain ⟨_, _, -, -, hdest, -⟩ | ⟨D, N, hpermits, -, hnext⟩ := (h.tasks t hmem).sends hrest
  · exact (hother hdest).elim
  · have hengaged : ∀ id, t.number? = some id → S.Engaged id :=
      fun _ => engaged_of_task hmem (ended_of_sends hrest)
    exact h.replaced hkeeps rfl (.tends (hpermits.kept hkeeps hengaged) (hnext o))
      fun id link hlink => .inr ⟨link, hlink, rfl⟩

/-- An answer of the session service keeps what is guarded. If it gives a number to a task, the
session with that number has just come in. -/
theorem keeps_of_answered {t' : Task}
    (hspares : S.Spares (S.gone i t t'
      { S.node with registry := (ownExchange now m S.node.registry).2 }))
    (hnew : ∀ id, t.number? = none → t'.number? = some id → S.node.registry.holdings id = none ∧
      (ownExchange now m S.node.registry).2.holdings id ≠ none) :
    Keeps S (S.gone i t t' { S.node with registry := (ownExchange now m S.node.registry).2 }) where
  service := rfl
  spares := hspares
  accepted id hid := by
    unfold gone
    split
    · next id' hnone hsome =>
      refine Function.update_of_ne ?_ _ _
      rintro rfl
      -- The number was free before the answer, and the move lets nothing in under engaged numbers.
      obtain ⟨hfree, hheld⟩ := hnew id hnone hsome
      exact hheld (hspares id hid hfree)
    · rfl
  established id x hx hstate := ownExchange_established now m hx hstate

/-- The session service answers. -/
theorem Orderly.answered (h : S.Orderly) (ht : S.tasks[i]? = some t)
    (hrest : t.rest = .send S.node.sessionService m limit k)
    (hspares : S.Spares (S.step (.go now i o))) : (S.step (.go now i o)).Orderly := by
  rw [step_go_answered ht hrest] at hspares ⊢
  have hmem := List.mem_of_getElem? ht
  have hlinks : ∀ id link, S.node.links.get? id = some link →
      ∃ link', S.node.links.get? id = some link' ∧ link'.peer = link.peer :=
    fun id link hlink => ⟨link, hlink, rfl⟩
  obtain ⟨hostkey, handshake, hnumber, hjob, -, rfl, hk⟩ | ⟨D, N, hpermits, hd, hnext⟩ :=
    (h.tasks t hmem).sends hrest
  · have hgranted : (t.answered k
        (ownExchange now (.incomingHandshake1 hostkey handshake) S.node.registry).1).number? =
        granted? (ownExchange now (.incomingHandshake1 hostkey handshake) S.node.registry).1 := by
      simp [Task.answered, hnumber, hjob]
    have hkeeps := keeps_of_answered hspares (by
      intro id _ hid
      obtain ⟨hfree, x, hx, -⟩ := ownExchange_accepts (hgranted.symm.trans hid)
      exact ⟨hfree, by simp [hx]⟩)
    -- From here on the task sends nothing, and adds no link but that of the number it was given.
    refine h.replaced hkeeps rfl (.tends ⟨fun _ _ _ => id, ?_, ?_⟩ (hk _)) fun id link hlink =>
      .inr (hlinks id link hlink)
    · exact fun _ _ _ _ => False.elim
    · rintro id peer ⟨hid, rfl⟩
      obtain ⟨-, x, hx, hpeer, hstate⟩ := ownExchange_accepts hid
      refine ⟨hgranted.trans hid, .intro ?_ hpeer hstate (.inr hx)⟩
      simp only [gone, hnumber, hgranted.trans hid, Function.update_self, hx]
  · have hjob : t.job.accepts = false := by
      cases haccepts : t.job.accepts with
      | true => exact (hpermits.accepts haccepts _ _ hd).elim
      | false => rfl
    have hnumber : (t.answered k (ownExchange now m S.node.registry).1).number? = t.number? := by
      simp [Task.answered, hjob]
    have hkeeps := keeps_of_answered hspares (by
      intro id hnone hsome
      cases (hnone.symm.trans hnumber.symm).trans hsome)
    have hengaged : ∀ id, t.number? = some id → S.Engaged id :=
      fun _ => engaged_of_task hmem (ended_of_sends hrest)
    have hpermits' := hpermits.kept hkeeps hengaged
    rw [← hnumber] at hpermits'
    exact h.replaced hkeeps rfl (.tends hpermits' (hnext _)) fun id link hlink =>
      .inr (hlinks id link hlink)

end Going

/-- Others have something done with sessions. -/
theorem Orderly.registry {r : SessionRegistry} (h : S.Orderly)
    (hspares : S.Spares { S with node := { S.node with registry := r } })
    (hestablished : ∀ id x, S.node.registry.holdings id = some x →
      x.handshake.state = .established → r.holdings id = some x ∨ r.holdings id = none) :
    Orderly { S with node := { S.node with registry := r } } :=
  h.move ⟨rfl, hspares, fun _ _ => rfl, hestablished⟩ (fun _ link hlink => .inr ⟨link, hlink, rfl⟩)
    fun _ ht => .inl ht

theorem orderly_idle {n : Node} (hlinks : n.links = .empty) : (idle n).Orderly where
  links id link hlink := by
    rw [idle, hlinks] at hlink
    cases hlink
  tasks _ ht := by cases ht

/-- Every move under which no session comes in under an engaged number keeps all in order. -/
theorem Orderly.step (h : S.Orderly) (m : Move) (hspares : S.Spares (S.step m)) :
    (S.step m).Orderly := by
  cases m with
  | begin now job => exact h.begin now job hspares
  | go now i o =>
    obtain hnone | ⟨t, ht⟩ := Option.eq_none_or_eq_some S.tasks[i]?
    · have hstay : S.step (.go now i o) = S := by simp only [Scene.step, hnone]
      rw [hstay]
      exact h
    cases hended : t.ended with
    | true => exact h.rest ht hended hspares
    | false =>
      cases hrest : t.rest with
      | send dest m limit k =>
        by_cases hdest : dest = S.node.sessionService
        · subst hdest
          exact h.answered ht hrest hspares
        · exact h.other ht hrest hdest hspares
      | _ => exact h.settle ht hended (by simp [hrest]) hspares
  | request now m => exact h.registry hspares fun id x hx => handle_established now m hx
  | expire now limit =>
    refine h.registry hspares fun id x hx _ => ?_
    exact (holdings_expire S.node.registry now limit id).imp_left fun hsame => hsame.trans hx

theorem Reaches.orderly (hlinks : n.links = .empty) (h : Reaches Spares (idle n) S) :
    S.Orderly := by
  induction h with
  | start => exact orderly_idle hlinks
  | move _ m hm ih => exact ih.step m hm

end Scene

/-- A node without links takes up whatever it is asked to, others use its session service and
sessions expire, in any order and with any answers of others. If no session comes in under the
number of a link or of a task that is about one, the session of each link's number is the one that
was accepted for it, if it is still there. Whatever is then sent for a link is about that session,
or it is for peers. -/
theorem links_keep_to_sessions (hlinks : n.links = .empty) (h : Reaches Spares (idle n) S) :
    (∀ id link, S.node.links.get? id = some link → S.Guards id link.peer) ∧
    ∀ t ∈ S.tasks, ∀ id, t.job.link? = some id → ∀ dest m limit k, t.rest = .send dest m limit k →
      dest = S.node.sessionService ∧ Concerns id m ∧ (∃ peer, S.Guards id peer) ∨ ToPeer m := by
  have horderly := h.orderly hlinks
  refine ⟨horderly.links, ?_⟩
  intro t ht id hid dest m limit k hrest
  obtain ⟨_, _, -, hjob, -⟩ | ⟨D, N, hpermits, hd, -⟩ := (horderly.tasks t ht).sends hrest
  · obtain ⟨hostkey, handshake, hoffer⟩ := Job.offer_of_accepts hjob
    rw [hoffer] at hid
    cases hid
  · obtain ⟨hserves, -, hguards⟩ := hpermits.link id hid dest m hd
    exact hserves.imp (fun hown => ⟨hown.1, hown.2, hguards⟩) And.right

/-! ### Runs of one node -/

/-- The message that a task waits for. -/
def Task.next? (t : Task) : Option (Address × Message) :=
  match t.rest with
  | .send dest m _ _ => some (dest, m)
  | _ => none

theorem Task.exists_of_next? {dest : Address} {m : Message} (h : t.next? = some (dest, m)) :
    ∃ limit k, t.rest = .send dest m limit k := by
  obtain ⟨job, number?, rest⟩ := t
  cases rest with
  | send dest' m' limit k =>
    cases h
    exact ⟨limit, k, rfl⟩
  | _ => cases h

namespace Scene

/-- While there is a session under every engaged number, none comes in under one. -/
theorem spares_of_held (h : (S.node.links.keys ++ S.tasks.filterMap (·.number?)).all
    (fun id => (S.node.registry.holdings id).isSome) = true) : S.Spares S' := by
  intro id hid hnone
  have hmem : id ∈ S.node.links.keys ++ S.tasks.filterMap (·.number?) := by
    obtain hthere | ⟨t, ht, -, hnumber⟩ := hid
    · obtain ⟨link, hlink⟩ := Option.isSome_iff_exists.1 hthere
      exact List.mem_append_left _ (List.mem_map_of_mem ((Table.mem_entries_iff _ _ _).2 hlink))
    · exact List.mem_append_right _ (List.mem_filterMap.2 ⟨t, ht, hnumber⟩)
  have hheld := List.all_eq_true.1 h id hmem
  rw [hnone] at hheld
  cases hheld

/-- The newest task goes on, and messages to others are answered by a rule. -/
def onward (others : Address → Message → Outcome) (S : Scene) : Scene :=
  S.step (.go 0 0 (((S.tasks.head?.bind Task.next?).map fun s => others s.1 s.2).getD (.ok none)))

theorem Reaches.onward {S₀ : Scene} (h : Reaches (fun _ _ => True) S₀ S)
    (others : Address → Message → Outcome) (steps : Nat) :
    Reaches (fun _ _ => True) S₀ ((Scene.onward others)^[steps] S) := by
  induction steps generalizing S with
  | zero => exact h
  | succ steps ih => exact ih (h.move _ trivial)

/-- The handshake by which one node starts a session with another. -/
def offeredHandshake : Bytes :=
  match (loopNode.registry.handle 0 (.sessionStart repeatingNode.hostkey)).1 with
  | some (.sessionHandshake1 _ handshake) => handshake
  | _ => []

/-- A node has a link with the number that it draws twice. -/
def linked : Scene :=
  (((idle repeatingNode).step
    (.begin 0 (.peer (.incomingHandshake1 loopNode.hostkey offeredHandshake)))).step
    (.go 0 0 (.ok none))).step (.go 0 0 (.ok none))

theorem linked_reaches : Reaches Spares (idle repeatingNode) linked := by
  refine .move (.move (.move .start _ ?_) _ ?_) _ ?_
  · exact spares_of_held (by decide +kernel)
  · exact spares_of_held (by decide +kernel)
  · exact spares_of_held (by decide +kernel)

end Scene

/-- A cell is taken up for a link that has been accepted. -/
theorem links_keep_to_sessions_linked :
    repeatingNode.links = .empty ∧ ∃ S, Reaches Spares (idle repeatingNode) S ∧
      ∃ t ∈ S.tasks, t.job.link? = some 5 ∧ ∃ dest m limit k, t.rest = .send dest m limit k ∧
        dest = S.node.sessionService ∧ Concerns 5 m ∧ ∃ peer, S.Guards 5 peer := by
  let job := Job.peer (.tunnelData 5 [])
  have hreaches : Reaches Spares (idle repeatingNode) (linked.step (.begin 0 job)) :=
    linked_reaches.move _ (spares_of_held (by decide +kernel))
  have hmem : (Task.begin 0 job linked.node).1 ∈ (linked.step (.begin 0 job)).tasks :=
    List.mem_cons_self
  have hnext : (Task.begin 0 job linked.node).1.next? =
      some (linked.node.sessionService, .layerDecrypt 0 [5] []) := by decide +kernel
  obtain ⟨limit, k, hrest⟩ := Task.exists_of_next? hnext
  obtain ⟨hdest, hconcerns, hguards⟩ | htoPeer :=
    (links_keep_to_sessions rfl hreaches).2 _ hmem 5 rfl _ _ _ _ hrest
  · exact ⟨rfl, _, hreaches, _, hmem, rfl, _, _, _, _, hrest, hdest, hconcerns, hguards⟩
  · cases htoPeer

namespace Scene

/-- The session under the number of the link is closed, the node opens a tunnel of its own, for
which the number comes up again, and then a peer has the link dropped. -/
def mistaken : Scene :=
  ((onward farAnswers)^[6] ((linked.step (.request 0 (.sessionClose 5))).step
    (.begin 0 (.build .direct [farHop])))).step (.begin 0 (.peer (.tunnelDestroy 5)))

end Scene

/-- If the session of a link is closed by others and its number comes up again while the link is
there, dropping the link closes the session with that number, which is that of a tunnel of the
node's own. -/
theorem not_links_keep_to_sessions :
    ∃ S, Reaches (fun _ _ => True) (idle repeatingNode) S ∧ ∃ t ∈ S.tasks, t.job.link? = some 5 ∧
      t.next? = some (S.node.sessionService, .sessionClose 5) ∧
      (S.node.registry.holdings 5).map (·.handshake) = some ⟨.initiator, .established⟩ ∧
      (S.accepted 5).map (·.handshake) = some ⟨.responder, .established⟩ ∧
      (S.node.tunnels.get? 1).map (·.sessions) = some [5] := by
  have hlinked : Reaches (fun _ _ => True) (idle repeatingNode) linked :=
    linked_reaches.mono fun _ _ _ => trivial
  have hreaches : Reaches (fun _ _ => True) (idle repeatingNode) mistaken :=
    (((hlinked.move _ trivial).move _ trivial).onward farAnswers 6).move _ trivial
  have htask : (mistaken.tasks.head?.map fun t => (t.job.link?, t.next?)) =
      some (some 5, some (mistaken.node.sessionService, .sessionClose 5)) := by decide +kernel
  obtain ⟨t, ht, htask⟩ := Option.map_eq_some_iff.1 htask
  obtain ⟨hlink, hnext⟩ := Prod.ext_iff.1 htask
  exact ⟨mistaken, hreaches, t, List.mem_of_head? ht, hlink, hnext, by decide +kernel⟩

end OnionTunnel.Node
