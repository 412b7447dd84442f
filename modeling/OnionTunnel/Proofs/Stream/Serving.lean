import OnionTunnel.Proofs.Stream.Framing
import OnionTunnel.Stream.Connection

/-!
# A served connection as a fold

Of all that is read off a connection, `requests` are the messages to handle: frames of unregistered
kinds are skipped, and any other error is the end. Serving the connection folds the handler over
these and stops at a reply that cannot be written. How the bytes are cut into chunks is not seen.
-/

namespace OnionTunnel.Connection

variable {σ : Type}

/-! ### The reference -/

/-- The messages in front of the first error, where a kind that is not registered is no error. -/
def requests : List (Except FrameError Message) → List Message
  | .ok m :: rest => m :: requests rest
  | .error (.unknownKind _) :: rest => requests rest
  | _ => []

/-- A connection that is being served: what has come of it so far, and whether it goes on. -/
structure Progress (σ : Type) where
  served : Served σ
  goesOn : Bool

/-- A connection on which nothing has been handled. -/
def begun (state : σ) : Progress σ := ⟨⟨[], [], state⟩, true⟩

/-- Handles one more message, unless the connection has ended. -/
def step (handle : Handler σ) (c : Progress σ) (m : Message) : Progress σ :=
  if c.goesOn then
    let (reply, state) := handle c.served.state m
    let handled := c.served.handled ++ [m]
    match reply.map Message.encode with
    | none => ⟨⟨c.served.sent, handled, state⟩, true⟩
    | some (.ok frame) => ⟨⟨c.served.sent ++ frame, handled, state⟩, true⟩
    | some (.error _) => ⟨⟨c.served.sent, handled, state⟩, false⟩
  else c

/-- What comes of handling messages one after the other. -/
def serveAll (handle : Handler σ) (state : σ) (ms : List Message) : Served σ :=
  (ms.foldl (step handle) (begun state)).served

/-- What a handler says to messages that it handles one after the other. -/
def replies (handle : Handler σ) : σ → List Message → List (Option Message)
  | _, [] => []
  | state, m :: ms => (handle state m).1 :: replies handle (handle state m).2 ms

/-- The frame of a reply, if there is a reply and it can be written. -/
def frame? (reply : Option Message) : Option Bytes :=
  reply.bind fun m => m.encode.toOption

/-- A reply that cannot be written. -/
def Unwritable (reply : Option Message) : Prop :=
  ∃ m e, reply = some m ∧ m.encode = .error e

/-- Messages have been handled one after the other, up to the first reply that cannot be written,
and the other replies have been sent. -/
structure Handles (handle : Handler σ) (state : σ) (ms : List Message) (c : Served σ) : Prop where
  handled : c.handled <+: ms
  state_eq : c.state = c.handled.foldl (fun s m => (handle s m).2) state
  sent_eq : c.sent = ((replies handle state c.handled).filterMap frame?).flatten
  writable : ∀ reply ∈ (replies handle state c.handled).dropLast, ¬ Unwritable reply
  complete : c.handled = ms ∨
    ∃ reply, (replies handle state c.handled).getLast? = some reply ∧ Unwritable reply

/-! ### One message more -/

section Fold
variable {handle : Handler σ} {state : σ} {m reply : Message} {frame : Bytes} {ms : List Message}
  {c : Served σ}

/-- A reply is not there, is written, or cannot be. -/
theorem reply_cases (reply? : Option Message) :
    reply? = none ∨ (∃ reply frame, reply? = some reply ∧ reply.encode = .ok frame) ∨
      Unwritable reply? := by
  cases reply? with
  | none => exact .inl rfl
  | some reply =>
    cases hencode : reply.encode with
    | ok frame => exact .inr (.inl ⟨reply, frame, rfl, hencode⟩)
    | error e => exact .inr (.inr ⟨reply, e, rfl, hencode⟩)

theorem step_of_silent (h : (handle c.state m).1 = none) :
    step handle ⟨c, true⟩ m = ⟨⟨c.sent, c.handled ++ [m], (handle c.state m).2⟩, true⟩ := by
  simp [step, h]

theorem step_of_written (h : (handle c.state m).1 = some reply) (hframe : reply.encode = .ok frame) :
    step handle ⟨c, true⟩ m =
      ⟨⟨c.sent ++ frame, c.handled ++ [m], (handle c.state m).2⟩, true⟩ := by
  simp [step, h, hframe]

theorem step_of_unwritable (h : Unwritable (handle c.state m).1) :
    step handle ⟨c, true⟩ m = ⟨⟨c.sent, c.handled ++ [m], (handle c.state m).2⟩, false⟩ := by
  obtain ⟨reply, e, hreply, herror⟩ := h
  simp [step, hreply, herror]

/-- Nothing is handled on a connection that has ended. -/
theorem foldl_of_ended (c : Served σ) (ms : List Message) :
    ms.foldl (step handle) ⟨c, false⟩ = ⟨c, false⟩ := by
  induction ms with
  | nil => rfl
  | cons m ms ih => exact ih

/-- What has come of a connection so far stands in front of what comes of it later. -/
theorem foldl_step (c : Served σ) (ms : List Message) :
    (ms.foldl (step handle) ⟨c, true⟩).served =
      ⟨c.sent ++ (serveAll handle c.state ms).sent, c.handled ++ (serveAll handle c.state ms).handled,
        (serveAll handle c.state ms).state⟩ := by
  induction ms generalizing c with
  | nil => simp [serveAll, begun]
  | cons m ms ih =>
    rw [serveAll, List.foldl_cons, List.foldl_cons, begun]
    obtain hsilent | ⟨reply, frame, hreply, hframe⟩ | hunwritable :=
      reply_cases (handle c.state m).1
    · rw [step_of_silent hsilent, @step_of_silent _ _ _ ⟨[], [], c.state⟩ hsilent, ih, ih]
      simp
    · rw [step_of_written hreply hframe, @step_of_written _ _ _ _ _ ⟨[], [], c.state⟩ hreply hframe,
        ih, ih]
      simp
    · rw [step_of_unwritable hunwritable, @step_of_unwritable _ _ _ ⟨[], [], c.state⟩ hunwritable,
        foldl_of_ended, foldl_of_ended]
      simp

theorem serveAll_of_silent (h : (handle state m).1 = none) (ms : List Message) :
    serveAll handle state (m :: ms) =
      { serveAll handle (handle state m).2 ms with
        handled := m :: (serveAll handle (handle state m).2 ms).handled } := by
  rw [serveAll, List.foldl_cons, begun, step_of_silent h, foldl_step]
  rfl

theorem serveAll_of_written (h : (handle state m).1 = some reply) (hframe : reply.encode = .ok frame)
    (ms : List Message) :
    serveAll handle state (m :: ms) =
      { serveAll handle (handle state m).2 ms with
        sent := frame ++ (serveAll handle (handle state m).2 ms).sent
        handled := m :: (serveAll handle (handle state m).2 ms).handled } := by
  rw [serveAll, List.foldl_cons, begun, step_of_written h hframe, foldl_step]
  rfl

theorem serveAll_of_unwritable (h : Unwritable (handle state m).1) (ms : List Message) :
    serveAll handle state (m :: ms) = ⟨[], [m], (handle state m).2⟩ := by
  rw [serveAll, List.foldl_cons, begun, step_of_unwritable h, foldl_of_ended]
  rfl

/-! ### What the fold does -/

/-- A message in front of others, whose reply can be written if there is one. -/
theorem Handles.cons (h : Handles handle (handle state m).2 ms c)
    (hreply : ¬ Unwritable (handle state m).1) :
    Handles handle state (m :: ms)
      ⟨(frame? (handle state m).1).getD [] ++ c.sent, m :: c.handled, c.state⟩ := by
  obtain ⟨hhandled, hstate, hsent, hwritable, hcomplete⟩ := h
  refine ⟨List.cons_prefix_cons.2 ⟨rfl, hhandled⟩, ?_, ?_, ?_, ?_⟩
  · rw [List.foldl_cons, hstate]
  · rw [replies, List.filterMap_cons, hsent]
    cases frame? (handle state m).1 <;> rfl
  · intro reply hmem
    rw [replies] at hmem
    cases hlater : replies handle (handle state m).2 c.handled with
    | nil => simp [hlater] at hmem
    | cons next later =>
      rw [hlater, List.dropLast_cons_cons] at hmem
      obtain rfl | hmem := List.mem_cons.1 hmem
      · exact hreply
      · exact hwritable reply (by rwa [hlater])
  · obtain hall | ⟨reply, hlast, hunwritable⟩ := hcomplete
    · exact .inl (by rw [hall])
    · refine .inr ⟨reply, ?_, hunwritable⟩
      rw [replies, List.getLast?_cons, hlast, Option.getD_some]

/-- The fold handles messages up to the first reply that cannot be written. -/
theorem serveAll_handles (handle : Handler σ) (state : σ) (ms : List Message) :
    Handles handle state ms (serveAll handle state ms) := by
  induction ms generalizing state with
  | nil => exact ⟨List.prefix_refl _, rfl, rfl, nofun, .inl rfl⟩
  | cons m ms ih =>
    have hrest := ih (handle state m).2
    obtain hsilent | ⟨reply, frame, hreply, hframe⟩ | hunwritable := reply_cases (handle state m).1
    · rw [serveAll_of_silent hsilent]
      simpa [hsilent, frame?] using hrest.cons (by simp [hsilent, Unwritable])
    · rw [serveAll_of_written hreply hframe]
      simpa [hreply, hframe, frame?, Except.toOption] using
        hrest.cons (by simp [hreply, hframe, Unwritable])
    · rw [serveAll_of_unwritable hunwritable]
      have hno : frame? (handle state m).1 = none := by
        obtain ⟨reply, e, hreply, herror⟩ := hunwritable
        simp [frame?, hreply, herror, Except.toOption]
      refine ⟨by simp, rfl, by simp [replies, hno], by simp [replies], .inr ⟨_, rfl, hunwritable⟩⟩

end Fold

/-! ### What serving does -/

/-- Serving a stream folds the handler over the requests that are read off it. -/
theorem serve_eq (handle : Handler σ) (state : σ) (s : Stream) :
    serve handle state s = serveAll handle state (requests (Stream.readAll s)) := by
  induction s using Stream.readAll.induct generalizing state with
  | case1 s result hend =>
    rw [serve, dif_pos hend, Stream.readAll, dif_pos hend]
    have hnone : requests [result] = [] := by
      revert hend
      cases result with
      | ok m => simp [Stream.isEnd]
      | error e => cases e <;> simp [Stream.isEnd, requests]
    rw [hnone]
    rfl
  | case2 s result hend ih =>
    rw [serve, dif_neg hend, Stream.readAll, dif_neg hend]
    change ¬ Stream.isEnd (Stream.readMessage s).1 = true at hend
    revert hend
    generalize (Stream.readMessage s).1 = result
    intro hend
    cases result with
    | error e =>
      cases e with
      | unknownKind code => exact ih state
      | closed | truncated => exact absurd rfl hend
      | _ => rfl
    | ok m =>
      obtain hsilent | ⟨reply, frame, hreply, hframe⟩ | hunwritable :=
        reply_cases (handle state m).1
      · simp [requests, serveAll_of_silent hsilent, hsilent, ih]
      · simp [requests, serveAll_of_written hreply hframe, hreply, hframe, ih]
      · obtain ⟨reply, e, hreply, herror⟩ := id hunwritable
        simp [requests, serveAll_of_unwritable hunwritable, hreply, herror]

/-- Serving a stream is the fold of one step over the messages of its frames, however the bytes are
cut into chunks. The handler sees the messages in front of the first error that is not about an
unregistered kind, in order, up to and including the first one whose reply cannot be written. What
is sent back is the frames of the other replies, in the same order, and nothing else. -/
theorem serve_refines (handle : Handler σ) (state : σ) (s : Stream) :
    serve handle state s = serveAll handle state (requests (Stream.parse s.flatten)) ∧
      Handles handle state (requests (Stream.parse s.flatten)) (serve handle state s) := by
  have hfold : serve handle state s = serveAll handle state (requests (Stream.parse s.flatten)) := by
    rw [serve_eq, Stream.readAll_eq]
  refine ⟨hfold, ?_⟩
  rw [hfold]
  exact serveAll_handles handle state _

end OnionTunnel.Connection
