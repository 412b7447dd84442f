import OnionTunnel.Proofs.Network.Services
import OnionTunnel.Proofs.Stream.Serving
import OnionTunnel.Stream.Client

/-!
# Two ways to ask a handler

A message gets to a handler in memory, where it is written and read as a frame and handed over, or
over a connection, where it is written to a stream that the handler serves and the reply is read off
another. `ask` is the first way, and the requests in a network are an instance of it;
`Connection.ask` is the second one, and the requests of a client are an instance of that.

Both ways call the handler for the same messages, once for each, and with the same message, and
bring the same reply back. What becomes of a frame decides both: `transmit` is what `ask` does with
it, and `parseOne_frame` says that a stream does nothing else with it.
-/

namespace OnionTunnel

open Network (Activity Outcome.ofReply)

variable {σ : Type}

/-! ### In memory -/

/-- Hands a message over to what answers at an address. It is written and read as a frame on its way
there, and so is its reply on the way back. -/
def handOver {μ : Type → Type} [Monad μ] (answer? : Option (Message → μ (Option Message)))
    (dest : Address) (m : Message) : μ Outcome :=
  match answer? with
  | none => return .error (.refused dest)
  | some answer =>
    match m.transmit with
    | .error fault => return .error fault
    | .ok arrived => do return Outcome.ofReply (← answer arrived)

/-- The reply that an exchange has brought. Without one, the other side has closed. -/
def Outcome.reply : Outcome → Except FrameError Message
  | .ok (some reply) => .ok reply
  | .ok none => .error .closed
  | .error e => .error e

/-- Hands a message over and asks for the reply. -/
def ask {μ : Type → Type} [Monad μ] (answer? : Option (Message → μ (Option Message)))
    (dest : Address) (m : Message) : μ (Except FrameError Message) := do
  return (← handOver answer? dest m).reply

/-- Asks one of the handlers that are registered by address. -/
def askHandler (handlers : Table Address (Handler σ)) (dest : Address) (m : Message) :
    StateM σ (Except FrameError Message) :=
  ask ((handlers.get? dest).map fun handle m state => handle state m) dest m

namespace Network

variable {n : Nat}

/-- What answers at an address as the network is when a message gets there. -/
def answererAt (depth : Nat) (dest : Address) :
    Activity n (Option (Message → Activity n (Option Message))) := do
  return ((← Timed.look).endpoints.get? dest).map (answer (exchange depth) dest)

theorem exchange_eq_handOver (depth : Nat) (dest : Address) (m : Message) :
    (exchange (depth + 1) dest m : Activity n Outcome) =
      answererAt depth dest >>= fun answer? => handOver answer? dest m := by
  rw [exchange_succ]
  refine congrArg Timed.read (funext fun _ => funext fun net => ?_)
  show _ = handOver ((net.endpoints.get? dest).map (answer (exchange depth) dest)) dest m
  cases net.endpoints.get? dest with
  | none => rfl
  | some e =>
    rw [Option.map_some, handOver]
    cases m.transmit <;> rfl

/-- A request in a network asks what answers at the address. -/
theorem request_eq_ask (dest : Address) (m : Message) :
    (request dest m : Activity n (Except FrameError Message)) =
      Timed.look >>= fun net =>
        answererAt (net.depth - 1) dest >>= fun answer? => ask answer? dest m := by
  refine congrArg Timed.read (funext fun _ => funext fun net => ?_)
  obtain ⟨depth, hdepth⟩ : ∃ depth, net.depth = depth + 1 := by
    apply Nat.exists_eq_add_one.2
    exact Nat.lt_of_lt_of_le (by decide) (Nat.le_add_right _ _)
  show (exchange net.depth dest m : Activity n Outcome).bind _ =
    answererAt (net.depth - 1) dest >>= fun answer? => OnionTunnel.ask answer? dest m
  rw [hdepth, exchange_eq_handOver, Nat.add_sub_cancel]
  refine congrArg Timed.read (funext fun _ => funext fun net => ?_)
  show (handOver _ dest m : Activity n Outcome).bind _ = (handOver _ dest m : Activity n Outcome).bind _
  congr 1
  funext outcome
  cases outcome with
  | error e => rfl
  | ok reply? => cases reply? <;> rfl

end Network

theorem askHandler_of_lost {handlers : Table Address (Handler σ)} {handle : Handler σ}
    {dest : Address} {m : Message} {e : FrameError} (hdest : handlers.get? dest = some handle)
    (h : m.transmit = .error e) (state : σ) :
    askHandler handlers dest m state = (.error e, state) := by
  simp only [askHandler, ask, handOver, hdest, Option.map_some, h]
  rfl

theorem askHandler_of_arrived {handlers : Table Address (Handler σ)} {handle : Handler σ}
    {dest : Address} {m arrived : Message} (hdest : handlers.get? dest = some handle)
    (h : m.transmit = .ok arrived) (state : σ) :
    askHandler handlers dest m state =
      ((Outcome.ofReply (handle state arrived).1).reply, (handle state arrived).2) := by
  simp only [askHandler, ask, handOver, hdest, Option.map_some, h]
  rfl

theorem reply_ofReply_of_ok {reply r : Message} (h : reply.transmit = .ok r) :
    (Outcome.ofReply (some reply)).reply = .ok r := by
  rw [Outcome.ofReply, h]
  rfl

theorem reply_ofReply_of_error {reply : Message} {e : FrameError} (h : reply.transmit = .error e) :
    (Outcome.ofReply (some reply)).reply = .error e := by
  rw [Outcome.ofReply, h]
  rfl

/-! ### Over a connection -/

/-- A way to cut what is written to a stream into chunks. -/
structure Chunking where
  cut : Bytes → Stream
  flatten_cut : ∀ b, (cut b).flatten = b

/-- What is written comes in one chunk. -/
def Chunking.whole : Chunking := ⟨fun b => [b], fun b => by simp⟩

namespace Connection

/-- Writes a message to a connection that a handler serves, and reads one reply off what is sent
back. -/
def ask (handle : Handler σ) (there back : Chunking) (state : σ) (m : Message) :
    Except FrameError Message × σ :=
  let (result, written) := Stream.writeMessage [] m
  let served := serve handle state (there.cut written)
  match result with
  | .error e => (.error e, served.state)
  | .ok _ => ((Stream.readMessage (back.cut served.sent)).1, served.state)

/-- A written message is one frame, of which a stream makes what is decoded. -/
theorem parseOne_frame {m : Message} {f : Bytes} (h : m.encode = .ok f) :
    Stream.parseOne f = (Message.decode f, f.length) ∧
      Stream.isEnd (Message.decode f) = false := by
  obtain ⟨p, -, hle, rfl⟩ := Message.encode_ok.1 h
  have hsize := Message.size_toNat hle
  generalize UInt16.ofNat (headerLength + p.length) = size at hsize
  have hone := Stream.parseOne_append (h := ⟨size, m.kind.code⟩) hsize []
  rw [List.append_nil] at hone
  rw [hone, Message.decode_header_append (h := ⟨size, m.kind.code⟩) hsize, List.length_append,
    Header.length_encode]
  exact ⟨rfl, Stream.isEnd_decodePayload _ _⟩

/-- The message in a frame is handled if the frame is read, and nothing is otherwise. -/
theorem requests_frame {m : Message} {f : Bytes} (h : m.encode = .ok f) :
    requests (Stream.parse f) = (Message.decode f).toOption.toList := by
  obtain ⟨hone, hend⟩ := parseOne_frame h
  rw [Stream.parse_of_frame (by rw [hone]; exact hend), hone, List.drop_length,
    Stream.parse_of_end rfl]
  cases Message.decode f with
  | ok a => rfl
  | error e => cases e <;> rfl

/-- A message is read off the stream that holds its frame as it is decoded. -/
theorem readMessage_frame {m : Message} {f : Bytes} (h : m.encode = .ok f) {s : Stream}
    (hs : s.flatten = f) : (Stream.readMessage s).1 = Message.decode f := by
  rw [(Stream.readMessage_eq s).1, hs, (parseOne_frame h).1]

variable {handle : Handler σ} {state : σ} {there back : Chunking} {m arrived : Message}

/-- Nothing is handled on a connection that nothing is written to. -/
theorem serve_nil {s : Stream} (hs : s.flatten = []) : serve handle state s = ⟨[], [], state⟩ := by
  rw [(serve_refines handle state s).1, hs, Stream.parse_of_end rfl]
  rfl

/-- What a written message comes to is decided by how its frame decodes. -/
theorem ask_of_written {f : Bytes} (h : m.encode = .ok f) :
    ask handle there back state m =
      let served := serveAll handle state (Message.decode f).toOption.toList
      ((Stream.readMessage (back.cut served.sent)).1, served.state) := by
  have hserved : serve handle state (there.cut f) =
      serveAll handle state (Message.decode f).toOption.toList := by
    rw [(serve_refines handle state _).1, there.flatten_cut, requests_frame h]
  simp only [ask, Stream.writeMessage, h, List.nil_append, hserved]

/-- Where nothing was sent back, the connection is found closed. -/
theorem readMessage_nil : (Stream.readMessage (back.cut [])).1 = .error .closed :=
  (Stream.readMessage_of_nil (back.flatten_cut [])).1

/-- A message that does not arrive is not handled. -/
theorem ask_of_lost {e : FrameError} (h : m.transmit = .error e) :
    ∃ e', ask handle there back state m = (.error e', state) := by
  cases hencode : m.encode with
  | error e' =>
    refine ⟨e', ?_⟩
    simp only [ask, Stream.writeMessage, hencode, serve_nil (there.flatten_cut [])]
  | ok f =>
    have hdecode : Message.decode f = .error e := by
      rw [← h, Message.transmit, hencode]
      rfl
    refine ⟨.closed, ?_⟩
    rw [ask_of_written hencode, hdecode]
    exact Prod.ext readMessage_nil rfl

/-- A message that arrives is handled, and what is sent back of the reply is read. -/
theorem ask_of_arrived (h : m.transmit = .ok arrived) :
    (ask handle there back state m).2 = (handle state arrived).2 ∧
    ∀ reply, (handle state arrived).1 = some reply →
      (∀ r, reply.transmit = .ok r → (ask handle there back state m).1 = .ok r) ∧
      ∀ e, reply.transmit = .error e → ∃ e', (ask handle there back state m).1 = .error e' := by
  obtain ⟨f, hencode⟩ := Message.encode_of_transmit h
  have hdecode : Message.decode f = .ok arrived := by
    rw [← h, Message.transmit, hencode]
    rfl
  have hask : ask handle there back state m =
      ((Stream.readMessage (back.cut (serveAll handle state [arrived]).sent)).1,
        (serveAll handle state [arrived]).state) := by
    rw [ask_of_written hencode, hdecode]
    rfl
  rw [hask]
  obtain hsilent | ⟨reply, frame, hreply, hframe⟩ | hunwritable := reply_cases (handle state arrived).1
  · rw [serveAll_of_silent hsilent]
    refine ⟨rfl, ?_⟩
    intro reply hreply
    rw [hsilent] at hreply
    cases hreply
  · rw [serveAll_of_written hreply hframe]
    refine ⟨rfl, ?_⟩
    intro reply' hreply'
    obtain rfl := Option.some.inj (hreply.symm.trans hreply')
    have hread := readMessage_frame hframe (back.flatten_cut frame)
    have htransmit : reply.transmit = Message.decode frame := by
      rw [Message.transmit, hframe]
      rfl
    have hsent : frame ++ (serveAll handle (handle state arrived).2 []).sent = frame :=
      List.append_nil frame
    rw [htransmit, hsent, hread]
    exact ⟨fun _ hr => hr, fun e he => ⟨e, he⟩⟩
  · rw [serveAll_of_unwritable hunwritable]
    refine ⟨rfl, ?_⟩
    obtain ⟨reply, e, hreply, herror⟩ := hunwritable
    intro reply' hreply'
    obtain rfl := Option.some.inj (hreply.symm.trans hreply')
    constructor
    · intro r hr
      obtain ⟨f', hf'⟩ := Message.encode_of_transmit hr
      cases herror.symm.trans hf'
    · intro _ _
      exact ⟨.closed, readMessage_nil⟩

/-- How the bytes are cut is not seen. -/
theorem ask_chunking (handle : Handler σ) (there back : Chunking) (state : σ) (m : Message) :
    ask handle there back state m = ask handle .whole .whole state m := by
  simp only [ask, (serve_refines handle state _).1, (Stream.readMessage_eq _).1,
    Chunking.flatten_cut]

end Connection

/-- A request of a client is an exchange over a connection, as long as the client waits at all. -/
theorem Client.request_eq_ask (client : Client) (hlimit : 0 < client.limit.nanoseconds)
    (dest : Address) (handle : Handler σ) (there back : Chunking) (state : σ) (m : Message) :
    client.request (Host.serving dest handle) state dest m =
      Connection.ask handle there back state m := by
  rw [Connection.ask_chunking]
  unfold request write Host.serving Connection.ask Stream.writeMessage
  simp only [if_pos]
  cases hencode : m.encode with
  | error e =>
    rw [Connection.serve_nil (Chunking.whole.flatten_cut [])]
    rfl
  | ok f => exact if_neg (Nat.not_le.2 hlimit)

/-! ### Both ways compared -/

/-- A handler that notes what it handles, oldest first. -/
def Handler.noting (handle : Handler σ) : Handler (σ × List Message) := fun s m =>
  ((handle s.1 m).1, (handle s.1 m).2, s.2 ++ [m])

/-- A message is asked of a handler in two ways, each with a result and with the handler's state and
what it has handled, and as far as a reply or an error is due the two come to the same. -/
structure Alike (handle : Handler σ) (state : σ) (m : Message)
    (near far : Except FrameError Message × (σ × List Message)) : Prop where
  /-- A message that arrives is handled once, in its canonical form. -/
  handled : ∀ arrived, m.transmit = .ok arrived → arrived = m.canonical ∧
    near.2 = ((handle state arrived).2, [arrived]) ∧ far.2 = ((handle state arrived).2, [arrived])
  /-- A reply whose frame is read comes back, in its canonical form. -/
  replied : ∀ arrived reply r, m.transmit = .ok arrived → (handle state arrived).1 = some reply →
    reply.transmit = .ok r → r = reply.canonical ∧ near.1 = .ok r ∧ far.1 = .ok r
  /-- A reply that is not written, or whose frame is not read, is an error. -/
  unreplied : ∀ arrived reply e, m.transmit = .ok arrived →
    (handle state arrived).1 = some reply → reply.transmit = .error e →
    (∃ e, near.1 = .error e) ∧ ∃ e, far.1 = .error e
  /-- A message that is not written, or whose frame is not read, is an error and is not handled. -/
  unhandled : ∀ e, m.transmit = .error e →
    (∃ e, near = (.error e, (state, []))) ∧ ∃ e, far = (.error e, (state, []))

/-- Whatever the handler, its state, the message and the chunks, asking in memory and asking over a
connection come to the same. The requests in a network are asked in memory, and those of a client
that waits are asked over a connection. -/
theorem transports_alike (handlers : Table Address (Handler (σ × List Message))) (dest : Address)
    (handle : Handler σ) (state : σ) (there back : Chunking) (m : Message) :
    Alike handle state m
      (askHandler (handlers.insert dest handle.noting) dest m (state, []))
      (Connection.ask handle.noting there back (state, []) m) ∧
    (∀ n, (Network.request dest m : Activity n (Except FrameError Message)) =
      Timed.look >>= fun net =>
        Network.answererAt (net.depth - 1) dest >>= fun answer? => ask answer? dest m) ∧
    ∀ client : Client, 0 < client.limit.nanoseconds →
      client.request (Host.serving dest handle) state dest m =
        Connection.ask handle there back state m := by
  have hdest := handlers.get?_insert_self dest handle.noting
  refine ⟨⟨?_, ?_, ?_, ?_⟩, ?_, ?_⟩
  · intro arrived harrived
    refine ⟨Message.transmit_ok harrived, ?_, ?_⟩
    · rw [askHandler_of_arrived hdest harrived]
      rfl
    · exact (Connection.ask_of_arrived harrived).1
  · intro arrived reply r harrived hreply hr
    refine ⟨Message.transmit_ok hr, ?_, ?_⟩
    · rw [askHandler_of_arrived hdest harrived, ← reply_ofReply_of_ok hr, ← hreply]
      rfl
    · have hnoted : (handle.noting (state, []) arrived).1 = some reply := hreply
      exact ((Connection.ask_of_arrived harrived).2 reply hnoted).1 r hr
  · intro arrived reply e harrived hreply he
    constructor
    · refine ⟨e, ?_⟩
      rw [askHandler_of_arrived hdest harrived, ← reply_ofReply_of_error he, ← hreply]
      rfl
    · have hnoted : (handle.noting (state, []) arrived).1 = some reply := hreply
      exact ((Connection.ask_of_arrived harrived).2 reply hnoted).2 e he
  · intro e he
    exact ⟨⟨e, askHandler_of_lost hdest he _⟩, Connection.ask_of_lost he⟩
  · exact fun _ => Network.request_eq_ask dest m
  · exact fun client hlimit => client.request_eq_ask hlimit dest handle there back state m

/-- A handler that counts what it handles and says it back. -/
def Handler.counting : Handler Nat := fun count m => (some m, count + 1)

/-- A notice is counted once and comes back, whichever way it is asked. -/
theorem transports_alike_counting :
    askHandler (.insert .empty (.quad 10 0 0 1 7014) Handler.counting.noting) (.quad 10 0 0 1 7014)
        (.tunnelDestroy 5) (0, []) = (.ok (.tunnelDestroy 5), (1, [.tunnelDestroy 5])) ∧
    Connection.ask Handler.counting.noting .whole .whole (0, []) (.tunnelDestroy 5) =
      (.ok (.tunnelDestroy 5), (1, [.tunnelDestroy 5])) ∧
    Client.standard.request (Host.serving (.quad 10 0 0 1 7014) Handler.counting) 0
        (.quad 10 0 0 1 7014) (.tunnelDestroy 5) =
      Connection.ask Handler.counting .whole .whole 0 (.tunnelDestroy 5) := by
  obtain ⟨halike, -, hclient⟩ := transports_alike .empty (.quad 10 0 0 1 7014) Handler.counting 0
    .whole .whole (.tunnelDestroy 5)
  have harrived : (Message.tunnelDestroy 5).transmit = .ok (.tunnelDestroy 5) :=
    Message.transmit_of_plain rfl (by decide)
  obtain ⟨-, hnear, hfar⟩ := halike.handled _ harrived
  obtain ⟨-, hnear', hfar'⟩ := halike.replied _ _ _ harrived rfl harrived
  exact ⟨Prod.ext hnear' hnear, Prod.ext hfar' hfar, hclient .standard (by decide)⟩

end OnionTunnel
