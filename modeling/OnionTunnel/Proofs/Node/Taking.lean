import OnionTunnel.Proofs.Network.Books
import OnionTunnel.Proofs.Session.Growth

/-!
# Identifiers that programs take

Each session and each tunnel of a node has an identifier, and the pools that they are drawn from
find one only while few enough are in use. `Takes` says how many sessions, and how many tunnels, any
one node has at most gained at any time while a program runs. What the program changes at its own
node is counted, and each message that it sends is counted by its kind, wherever it gets. There is
one lemma a function.

## Implementation notes

A request for a tunnel has no number, since the node that gets it chooses how many hops it is built
through; no node sends one. A tunnel that becomes ready is counted again, as though its reservation
could have gone while its hops were opened.
-/

namespace OnionTunnel

namespace Node

variable {α β : Type} {j k : Nat} {n n' n'' : Node} {dest : Address} {m : Message}

/-- A node has gained at most so many sessions, and at most so many tunnels. -/
structure Gains (k : Nat) (n n' : Node) : Prop where
  setting : n'.setting = n.setting
  sessions : Adds k n.registry.holdings n'.registry.holdings
  tunnels : Adds k n.tunnels.slots.get? n'.tunnels.slots.get?

theorem Gains.refl (k : Nat) (n : Node) : Gains k n n := ⟨rfl, .refl k _, .refl k _⟩

theorem Gains.mono (h : Gains j n n') (hk : j ≤ k) : Gains k n n' :=
  ⟨h.setting, h.sessions.mono hk, h.tunnels.mono hk⟩

theorem Gains.trans (h : Gains j n n') (h' : Gains k n' n'') : Gains (j + k) n n'' :=
  ⟨h'.setting.trans h.setting, h.sessions.trans h'.sessions, h.tunnels.trans h'.tunnels⟩

/-- A program that a node begins takes at most so many identifiers: those that it has the node gain
and those that its messages take. Others may change the node while it waits. -/
inductive Takes {α : Type} : Nat → Node → Program Node α → Prop
  | done {k : Nat} {n : Node} (c : α) : Takes k n (.done c)
  | read {k : Nat} {n : Node} {next : Instant → Node → Program Node α}
      (h : ∀ now, Takes k n (next now n)) : Takes k n (.read next)
  | write {j k : Nat} {n s : Node} {p : Program Node α} (hs : Gains j n s) (h : Takes k s p) :
      Takes (j + k) n (.write s p)
  | send {j k : Nat} {n : Node} {dest : Address} {m : Message} {limit : Option Duration}
      {next : Outcome → Program Node α} (hm : m.takes? = some j)
      (h : ∀ o n', Takes k n' (next o)) : Takes (j + k) n (.send dest m limit next)

/-- What an action takes, whether it fails or not. -/
def ActsTaking (k : Nat) (n : Node) (x : Action α) : Prop := Takes k n x.run

/-! ### Rules -/

theorem Takes.mono {p : Program Node α} (hp : Takes j n p) (h : j ≤ k) : Takes k n p := by
  induction hp generalizing k with
  | done c => exact .done c
  | read _ ih => exact .read fun now => ih now h
  | @write j k₁ _ _ _ hs _ ih =>
    obtain ⟨d, rfl⟩ := Nat.exists_eq_add_of_le h
    rw [Nat.add_assoc]
    exact .write hs (ih (Nat.le_add_right k₁ d))
  | @send j k₁ _ _ _ _ _ hm _ ih =>
    obtain ⟨d, rfl⟩ := Nat.exists_eq_add_of_le h
    rw [Nat.add_assoc]
    exact .send hm fun o n' => ih o n' (Nat.le_add_right k₁ d)

/-- One program after another. The node may have become any other in between. -/
theorem Takes.bind {p : Program Node α} {f : α → Program Node β} (hp : Takes j n p)
    (hf : ∀ c n', Takes k n' (f c)) : Takes (j + k) n (p >>= f) := by
  show Takes (j + k) n (p.bind f)
  induction hp with
  | done c => exact (hf c _).mono (Nat.le_add_left k _)
  | read _ ih => exact .read ih
  | write hs _ ih =>
    rw [Nat.add_assoc]
    exact .write hs ih
  | send hm _ ih =>
    rw [Nat.add_assoc]
    exact .send hm ih

/-- A look of the node at itself, and a program after it. -/
theorem Takes.get {f : Node → Program Node β} (h : Takes k n (f n)) :
    Takes k n (MonadState.get >>= f) :=
  .read fun _ => h

theorem Takes.modifyGet {f : Node → α × Node} (hf : Gains k n (f n).2) :
    Takes k n (MonadStateOf.modifyGet f : Program Node α) :=
  .read fun _ => .write (k := 0) hf (.done _)

theorem Takes.exchange (hm : m.takes? = some k) (limit : Option Duration) (dest : Address) :
    Takes k n (Program.exchange limit dest m) :=
  .send (k := 0) hm fun o _ => .done o

/-- Programs that take nothing, one for each member of a list. -/
theorem Takes.forM {γ : Type} {f : γ → Program Node PUnit} (hf : ∀ c n, Takes 0 n (f c))
    (cs : List γ) : Takes 0 n (cs.forM f) := by
  induction cs generalizing n with
  | nil => exact .done _
  | cons c cs ih => exact Takes.bind (hf c n) fun _ _ => ih

theorem ActsTaking.mono {x : Action α} (hx : ActsTaking j n x) (h : j ≤ k) : ActsTaking k n x :=
  Takes.mono hx h

theorem ActsTaking.pure (c : α) : ActsTaking k n (Pure.pure c) := .done _

theorem ActsTaking.throw (e : TunnelError) : ActsTaking k n (throw e : Action α) := .done _

/-- One action after another. -/
theorem ActsTaking.bind {x : Action α} {f : α → Action β} (hx : ActsTaking j n x)
    (hf : ∀ c n', ActsTaking k n' (f c)) : ActsTaking (j + k) n (x >>= f) := by
  refine Takes.bind hx ?_
  rintro (e | c) n'
  · exact .done _
  · exact hf c n'

/-- An action after a program. -/
theorem ActsTaking.after {p : Program Node α} {f : α → Action β} (hp : Takes j n p)
    (hf : ∀ c n', ActsTaking k n' (f c)) : ActsTaking (j + k) n (liftM p >>= f) := by
  have hlifted : ActsTaking j n (liftM p : Action α) :=
    Takes.bind (k := 0) hp fun c _ => Takes.done (Except.ok c)
  exact hlifted.bind hf

/-- An action that is tried. -/
theorem ActsTaking.attempt {x : Action α} {f : Except TunnelError α → Action β}
    (hx : ActsTaking j n x) (hf : ∀ res n', ActsTaking k n' (f res)) :
    ActsTaking (j + k) n (attempt x >>= f) :=
  ActsTaking.after hx hf

/-- A look of the node at itself, and an action after it. -/
theorem ActsTaking.get {f : Node → Action β} (h : ActsTaking k n (f n)) :
    ActsTaking k n (MonadState.get >>= f) :=
  .read fun _ => h

/-- A change of the node, and an action after it. -/
theorem ActsTaking.change {f : Node → Node} {g : PUnit → Action β} (hf : Gains j n (f n))
    (h : ActsTaking k (f n) (g ⟨⟩)) : ActsTaking (j + k) n (modify f >>= g) :=
  .read fun _ => .write hf h

/-! ### Messages and sessions -/

section Sessions

theorem takes_notify (hm : m.takes? = some k) (limit : Option Duration) (dest : Address) :
    Takes k n (notify limit dest m) :=
  Takes.bind (k := 0) (Takes.exchange hm limit dest) fun _ _ => .done _

theorem takes_request (hm : m.takes? = some k) (limit : Option Duration) (dest : Address) :
    ActsTaking k n (request limit dest m) := by
  refine ActsTaking.after (k := 0) (Takes.exchange hm limit dest) ?_
  rintro (e | _ | reply) n'
  · exact ActsTaking.throw _
  · exact ActsTaking.throw _
  · exact ActsTaking.pure reply

theorem takes_askSessions (hm : m.takes? = some k) : ActsTaking k n (askSessions m) :=
  ActsTaking.get (takes_request hm none _)

theorem takes_startSession (hostkey : Bytes) : ActsTaking 1 n (startSession hostkey) := by
  refine ActsTaking.bind (k := 0) (takes_askSessions rfl) fun reply n' => ?_
  split
  · exact ActsTaking.pure _
  · exact ActsTaking.throw _

theorem takes_acceptSession (hostkey handshake : Bytes) :
    ActsTaking 1 n (acceptSession hostkey handshake) := by
  refine ActsTaking.bind (k := 0) (takes_askSessions rfl) fun reply n' => ?_
  split
  · exact ActsTaking.pure _
  · exact ActsTaking.throw _

theorem takes_confirmSession (id : UInt32) (handshake : Bytes) :
    ActsTaking 0 n (confirmSession id handshake) := by
  refine ActsTaking.bind (k := 0) (takes_askSessions rfl) fun reply n' => ?_
  split
  · exact ActsTaking.pure _
  · exact ActsTaking.throw _

theorem takes_nextRequestId : ActsTaking 0 n nextRequestId :=
  Takes.bind (j := 0) (k := 0) (Takes.modifyGet ⟨rfl, .refl 0 _, .refl 0 _⟩) fun number _ =>
    ActsTaking.pure number

theorem takes_matching (expected actual : UInt16) (payload : Bytes) :
    ActsTaking 0 n (matching expected actual payload) := by
  unfold matching
  split
  · exact ActsTaking.pure _
  · exact ActsTaking.throw _

theorem takes_encryptLayers (ids : List UInt32) (payload : Bytes) :
    ActsTaking 0 n (encryptLayers ids payload) := by
  refine ActsTaking.bind (k := 0) takes_nextRequestId fun number n' => ?_
  refine ActsTaking.bind (k := 0) (takes_askSessions rfl) fun reply n' => ?_
  split
  · exact takes_matching _ _ _
  · exact ActsTaking.throw _

theorem takes_decryptLayers (ids : List UInt32) (payload : Bytes) :
    ActsTaking 0 n (decryptLayers ids payload) := by
  refine ActsTaking.bind (k := 0) takes_nextRequestId fun number n' => ?_
  refine ActsTaking.bind (k := 0) (takes_askSessions rfl) fun reply n' => ?_
  split
  · exact takes_matching _ _ _
  · exact ActsTaking.throw _

theorem gains_updateDirectory (f : PeerDirectory → PeerDirectory) (n : Node) :
    Gains 0 n (updateDirectory f n) := by
  unfold updateDirectory
  split <;> exact ⟨rfl, .refl 0 _, .refl 0 _⟩

theorem takes_closeSession (id : UInt32) : Takes 0 n (closeSession id) :=
  Takes.bind (j := 0) (k := 0) (Takes.modifyGet (gains_updateDirectory _ n)) fun _ _ =>
    Takes.get (takes_notify rfl none _)

end Sessions

/-! ### Peers -/

section Peers

theorem takes_askPeer (hm : m.takes? = some k) (dest : Address) : ActsTaking k n (askPeer dest m) :=
  ActsTaking.get (takes_request hm _ dest)

theorem takes_returnedHandshake (m : Message) : ActsTaking 0 n (returnedHandshake m) := by
  unfold returnedHandshake
  split
  · exact ActsTaking.pure _
  · exact ActsTaking.throw _

theorem takes_deliverHandshake (dest : Address) (hostkey handshake : Bytes) :
    ActsTaking 1 n (deliverHandshake dest hostkey handshake) :=
  ActsTaking.bind (k := 0) (takes_askPeer rfl dest) fun reply _ => takes_returnedHandshake reply

theorem takes_sendCell (dest : Address) (link : UInt32) (data : Bytes) :
    ActsTaking 1 n (sendCell dest link data) := by
  refine ActsTaking.bind (k := 0) (takes_askPeer rfl dest) fun reply n' => ?_
  split
  · exact ActsTaking.pure _
  · exact ActsTaking.throw _

theorem takes_dropLink (dest : Address) (link : UInt32) : Takes 0 n (dropLink dest link) :=
  Takes.get (takes_notify rfl _ dest)

theorem takes_ofFrame (r : Except FrameError α) : ActsTaking 0 n (ofFrame r) := by
  cases r with
  | ok c => exact ActsTaking.pure c
  | error e => exact ActsTaking.throw _

end Peers

/-! ### Owners -/

section Owners

theorem takes_relay (route : List OpenHop) (cell : Bytes) : ActsTaking 1 n (relay route cell) := by
  unfold relay
  split
  · exact ActsTaking.throw _
  · refine ActsTaking.bind (k := 1) (takes_encryptLayers _ _) fun layered n' => ?_
    refine ActsTaking.bind (k := 0) (takes_sendCell _ _ _) fun reply n' => ?_
    exact takes_decryptLayers _ _

theorem takes_reachHop (hop : Hop) (route : List OpenHop) (handshake : Bytes) :
    ActsTaking 1 n (reachHop hop route handshake) := by
  refine ActsTaking.get ?_
  split
  · exact takes_deliverHandshake _ _ _
  · refine ActsTaking.bind (k := 1) (takes_ofFrame _) fun incoming n' => ?_
    refine ActsTaking.bind (k := 1) (takes_ofFrame _) fun command n' => ?_
    refine ActsTaking.bind (k := 0) (takes_relay route command) fun reply n' => ?_
    exact ActsTaking.bind (k := 0) (takes_ofFrame _) fun m _ => takes_returnedHandshake m

theorem takes_openHop (hop : Hop) (route : List OpenHop) : ActsTaking 2 n (openHop hop route) := by
  refine ActsTaking.bind (k := 1) (takes_startSession hop.hostkey) ?_
  rintro ⟨session, handshake⟩ n'
  have hclose : ∀ e n, ActsTaking 0 n (do closeSession session; throw e : Action OpenHop) :=
    fun e n => ActsTaking.after (k := 0) (takes_closeSession session) fun _ _ => ActsTaking.throw e
  refine ActsTaking.attempt (k := 0) (takes_reachHop hop route handshake) ?_
  rintro (e | ⟨link, returned⟩) n'
  · exact hclose e n'
  · refine ActsTaking.attempt (k := 0) (takes_confirmSession session returned) ?_
    rintro (e | _) n'
    · show ActsTaking 0 n' (ite _ _ _ : Action OpenHop)
      split
      · exact ActsTaking.after (k := 0) (takes_dropLink hop.address link) fun _ n' => hclose e n'
      · exact hclose e n'
    · exact ActsTaking.change (j := 0) (k := 0) (gains_updateDirectory _ n') (ActsTaking.pure _)

theorem takes_release (mode : TunnelMode) (hops : List OpenHop) :
    Takes 0 n (release mode hops) := by
  have hdrops : Takes 0 n ((notified mode hops).forM fun h => dropLink h.address h.link) :=
    Takes.forM (fun h _ => takes_dropLink h.address h.link) _
  refine Takes.bind (k := 0) hdrops fun _ n' => ?_
  refine Takes.forM (fun h n' => ?_) _
  exact Takes.bind (k := 0) (takes_closeSession h.session) fun _ n' =>
    Takes.modifyGet (gains_updateDirectory _ n')

theorem takes_openHops (mode : TunnelMode) (built : List OpenHop) (hops : List Hop) :
    ActsTaking (2 * hops.length) n (openHops mode built hops) := by
  induction hops generalizing built n with
  | nil => exact ActsTaking.pure _
  | cons hop rest ih =>
    rw [List.length_cons, Nat.mul_succ, Nat.add_comm]
    refine ActsTaking.attempt (takes_openHop hop _) ?_
    rintro (cause | h) n'
    · refine ActsTaking.mono ?_ (Nat.zero_le _)
      exact ActsTaking.after (k := 0) (takes_release mode built) fun _ _ => ActsTaking.throw _
    · exact ih (built ++ [h])

/-- A node whose tunnels are changed. -/
theorem Gains.withTunnels {t : TunnelTable} (hdraw : t.ids.draw = n.tunnels.ids.draw)
    (hattempts : t.ids.attempts = n.tunnels.ids.attempts)
    (h : Adds k n.tunnels.slots.get? t.slots.get?) : Gains k n { n with tunnels := t } where
  setting := by simp only [Node.setting, hdraw, hattempts]
  sessions := .refl k _
  tunnels := h

theorem gains_reserve (n : Node) : Gains 1 n { n with tunnels := n.tunnels.reserve.2 } := by
  obtain ⟨ids, hdraw, hattempts, ⟨id, hid, -⟩ | ⟨⟨e, he⟩, -⟩⟩ :=
    n.tunnels.ids.allocate_cases n.tunnels.slots.contains
  · rw [TunnelTable.reserve, hid]
    refine .withTunnels hdraw hattempts ?_
    rw [Table.get?_insert]
    exact .update _ id _
  · rw [TunnelTable.reserve, he]
    exact .withTunnels hdraw hattempts (.refl 1 _)

theorem gains_complete (t : Tunnel) (n : Node) :
    Gains 1 n { n with tunnels := n.tunnels.complete t } := by
  refine .withTunnels rfl rfl ?_
  rw [TunnelTable.complete, Table.get?_insert]
  exact .update _ t.id _

theorem gains_abandon (id : UInt32) (n : Node) :
    Gains 0 n { n with tunnels := n.tunnels.abandon id } := by
  unfold TunnelTable.abandon
  split
  · refine .withTunnels rfl rfl ?_
    rw [Table.get?_erase]
    exact .erase 0 _ id
  · exact .refl 0 n

theorem gains_take (id : UInt32) (n : Node) :
    Gains 0 n { n with tunnels := (n.tunnels.take id).2 } := by
  unfold TunnelTable.take
  split
  · refine .withTunnels rfl rfl ?_
    rw [Table.get?_erase]
    exact .erase 0 _ id
  · exact .refl 0 n

theorem takes_reserveTunnel : ActsTaking 1 n reserveTunnel := by
  refine ActsTaking.get ?_
  refine ActsTaking.change (j := 1) (k := 0) (gains_reserve n) ?_
  split
  · exact ActsTaking.pure _
  · exact ActsTaking.throw _

/-- A build takes identifiers for the tunnel, and those of two sessions for each hop. -/
theorem takes_build (mode : TunnelMode) (hops : List Hop) :
    ActsTaking (2 * hops.length + 2) n (build mode hops) := by
  unfold build
  split
  · exact ActsTaking.throw _
  · refine ActsTaking.mono ?_ (show 1 + (2 * hops.length + 1) ≤ _ by omega)
    refine ActsTaking.bind takes_reserveTunnel fun id n' => ?_
    refine ActsTaking.attempt (takes_openHops mode [] hops) ?_
    rintro (e | built) n'
    · refine ActsTaking.change (k := 1) (gains_abandon id n') ?_
      exact ActsTaking.throw e
    · refine ActsTaking.change (k := 0) (gains_complete _ n') ?_
      exact ActsTaking.pure id

theorem takes_tunnel (id : UInt32) : ActsTaking 0 n (tunnel id) := by
  refine ActsTaking.get ?_
  split
  · exact ActsTaking.pure _
  · exact ActsTaking.throw _

theorem takes_send (id : UInt32) (payload : Bytes) : ActsTaking 1 n (send id payload) := by
  refine ActsTaking.bind (k := 1) (takes_tunnel id) fun t n' => ?_
  split
  · exact ActsTaking.throw _
  · refine ActsTaking.bind (k := 1) (takes_ofFrame _) fun command n' => ?_
    refine ActsTaking.bind (k := 1) (takes_encryptLayers _ _) fun layered n' => ?_
    exact takes_sendCell _ _ _

theorem takes_receive (id : UInt32) (layered : Bytes) : ActsTaking 0 n (receive id layered) :=
  ActsTaking.bind (k := 0) (takes_tunnel id) fun _ _ => takes_decryptLayers _ _

theorem takes_takeTunnel (id : UInt32) : ActsTaking 0 n (takeTunnel id) := by
  refine ActsTaking.after (j := 0) (k := 0) (Takes.modifyGet (gains_take id n)) fun tunnel? n' => ?_
  cases tunnel? with
  | some t => exact ActsTaking.pure t
  | none => exact ActsTaking.throw _

theorem takes_teardown (id : UInt32) : ActsTaking 0 n (teardown id) := by
  refine ActsTaking.bind (k := 0) (takes_takeTunnel id) fun t n' => ?_
  exact Takes.bind (k := 0) (takes_release t.mode t.hops) fun c _ => ActsTaking.pure c

end Owners

/-! ### Hops -/

section Hops

theorem takes_acceptHandshake (hostkey handshake : Bytes) :
    ActsTaking 1 n (acceptHandshake hostkey handshake) := by
  refine ActsTaking.bind (k := 0) (takes_acceptSession hostkey handshake) ?_
  rintro ⟨id, returned⟩ n'
  refine ActsTaking.change (j := 0) (k := 0) ⟨rfl, .refl 0 _, .refl 0 _⟩ ?_
  exact ActsTaking.change (j := 0) (k := 0) (gains_updateDirectory _ _) (ActsTaking.pure _)

theorem takes_joinNext (id : UInt32) (next : Downstream) : ActsTaking 0 n (joinNext id next) := by
  refine ActsTaking.get ?_
  split
  · exact ActsTaking.change (j := 0) (k := 0) ⟨rfl, .refl 0 _, .refl 0 _⟩ (ActsTaking.pure _)
  · exact ActsTaking.after (k := 0) (takes_dropLink _ _) fun _ _ => ActsTaking.throw _

theorem takes_extendLink (id : UInt32) (nextHop : Address) (incoming : Bytes) :
    ActsTaking 1 n (extendLink id nextHop incoming) := by
  refine ActsTaking.bind (k := 1) (takes_ofFrame _) fun m n' => ?_
  split
  · refine ActsTaking.bind (k := 0) (takes_deliverHandshake _ _ _) ?_
    rintro ⟨link, returned⟩ n'
    exact ActsTaking.bind (k := 0) (takes_joinNext id _) fun _ _ => takes_ofFrame _
  · exact ActsTaking.throw _

theorem takes_deliver (d : Delivery) : ActsTaking 0 n (deliver d) := by
  have hanswer : (n.sink.deliver d).2.answer = n.sink.answer := by
    unfold Sink.deliver
    cases n.sink.answer n.sink.handed d <;> rfl
  have hgains : Gains 0 n { n with sink := (n.sink.deliver d).2 } :=
    ⟨by simp only [Node.setting, hanswer], .refl 0 _, .refl 0 _⟩
  refine ActsTaking.get ?_
  refine ActsTaking.change (k := 0) hgains ?_
  split
  · exact ActsTaking.pure _
  · exact ActsTaking.throw _

theorem takes_execute (id : UInt32) (peer : Identity) (command : Bytes) :
    ActsTaking 1 n (execute id peer command) := by
  refine ActsTaking.bind (k := 1) (takes_ofFrame _) fun m n' => ?_
  split
  · exact takes_extendLink id _ _
  · split
    · exact (takes_deliver _).mono (Nat.zero_le 1)
    · exact ActsTaking.throw _
  · exact ActsTaking.throw _

/-- A hop that handles a cell passes it on or does what it says. -/
theorem takes_handleCell (id : UInt32) (data : Bytes) : ActsTaking 1 n (handleCell id data) := by
  refine ActsTaking.get ?_
  split
  · exact ActsTaking.throw _
  · next link _ =>
    refine ActsTaking.bind (k := 1) (takes_decryptLayers _ _) fun text n' => ?_
    cases link.downstream? with
    | some next =>
      refine ActsTaking.bind (k := 0) (takes_sendCell _ _ _) fun reply n' => ?_
      exact takes_encryptLayers _ reply
    | none =>
      refine ActsTaking.bind (k := 0) (takes_execute _ _ _) fun reply n' => ?_
      exact takes_encryptLayers _ reply

theorem takes_handleDestroy (id : UInt32) : Takes 0 n (handleDestroy id) := by
  refine Takes.get ?_
  split
  · exact .done _
  · next link _ =>
    refine Takes.bind (j := 0) (k := 0) (Takes.modifyGet ⟨rfl, .refl 0 _, .refl 0 _⟩) fun _ n' => ?_
    refine Takes.bind (k := 0) (takes_closeSession id) fun _ n' => ?_
    split
    · exact takes_dropLink _ _
    · exact .done _

end Hops

/-! ### Services -/

section Services

theorem takes_exchangeData (id : UInt32) (payload : Bytes) :
    ActsTaking 1 n (exchangeData id payload) :=
  ActsTaking.bind (k := 0) (takes_send id payload) fun layered _ => takes_receive id layered

theorem takes_answerSessions (hm : m.takes? = some k) : Takes k n (answerSessions m) := by
  refine .read fun now => Takes.modifyGet ?_
  obtain ⟨hset, hadds⟩ := SessionRegistry.handle_adds hm now n.registry
  exact ⟨by simp only [Node.setting, hset], hadds, .refl k _⟩

/-- A client has a tunnel used or torn down. -/
theorem takes_answerClients (hm : m.takes? = some k) : Takes k n (answerClients m) := by
  cases m with
  | tunnelBuild => cases hm
  | tunnelData id payload =>
    obtain rfl := Option.some.inj hm
    refine Takes.bind (k := 0) (takes_exchangeData id payload) ?_
    rintro (_ | _) n' <;> exact .done _
  | tunnelDestroy id =>
    obtain rfl := Option.some.inj hm
    refine Takes.bind (k := 0) (takes_teardown id) ?_
    rintro (_ | _) n' <;> exact .done _
  | _ => exact .done _

theorem takes_answerPeers (hm : m.takes? = some k) : Takes k n (answerPeers m) := by
  cases m with
  | incomingHandshake1 hostkey handshake =>
    obtain rfl := Option.some.inj hm
    refine Takes.bind (k := 0) (takes_acceptHandshake hostkey handshake) ?_
    rintro (_ | _) n' <;> exact .done _
  | tunnelData link data =>
    obtain rfl := Option.some.inj hm
    refine Takes.bind (k := 0) (takes_handleCell link data) ?_
    rintro (_ | _) n' <;> exact .done _
  | tunnelDestroy link =>
    obtain rfl := Option.some.inj hm
    exact Takes.bind (k := 0) (takes_handleDestroy link) fun _ _ => .done _
  | _ => exact .done _

/-- An answer takes what is known of its message. -/
theorem takes_answer (s : Service) (hm : m.takes? = some k) : Takes k n (answer s m) := by
  cases s with
  | sessions => exact takes_answerSessions hm
  | clients => exact takes_answerClients hm
  | peers => exact takes_answerPeers hm

end Services

end Node

end OnionTunnel
