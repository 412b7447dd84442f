import Mathlib.Data.List.Forall2
import OnionTunnel.Proofs.Network.Loopback
import OnionTunnel.Proofs.Node.Dialling
import OnionTunnel.Proofs.Tunnel.Table

/-!
# Builds that fail

A build that fails has opened the hops before one and none after it. Whatever the peers do, the
owner is left with the sessions and the tunnels that it had, and the open hops that it speaks to
have been told to drop their links.
-/

namespace OnionTunnel

theorem TunnelTable.reserve_cases (t : TunnelTable) :
    (∃ id, t.reserve.1 = .ok id ∧ t.Spare ∧ t.slots.get? id = none ∧
        t.reserve.2.slots = t.slots.insert id .building) ∨
      (∃ e, t.reserve.1 = .error e) ∧ ¬ t.Spare ∧ t.reserve.2.slots = t.slots := by
  obtain ⟨id, hid, -, hfree, hslots⟩ | ⟨⟨e, he⟩, hslots⟩ := t.reserve_slots
  · have hspare : t.Spare := ⟨id, t.reserve_fst.symm.trans hid⟩
    exact .inl ⟨id, hid, hspare, hfree, hslots⟩
  · refine .inr ⟨⟨e, he⟩, ?_, hslots⟩
    rintro ⟨id, hid⟩
    rw [← t.reserve_fst, he] at hid
    cases hid

/-- An identifier that was taken and given back is free again. -/
theorem TunnelTable.get?_abandon {t t' : TunnelTable} {id : UInt32}
    (hfree : t.slots.get? id = none) (ht' : t'.slots = t.slots.insert id .building) (id' : UInt32) :
    (t'.abandon id).slots.get? id' = t.slots.get? id' := by
  have htaken : t'.slots.get? id = some .building := by rw [ht', Table.get?_insert_self]
  rw [abandon, htaken]
  by_cases heq : id' = id
  · rw [heq, Table.get?_erase_self, hfree]
  · rw [Table.get?_erase_of_ne _ heq, ht', Table.get?_insert_of_ne _ _ heq]

namespace Node

open Network SessionRegistry

variable {n n' n₀ : Node} {mode : TunnelMode} {hops rest : List Hop} {hop : Hop}
  {built : List OpenHop} {h : OpenHop} {t dials : List Sent} {ids new : List UInt32}

/-! ### Releasing -/

/-- Numbers that are clear stay clear when others are cleared. -/
theorem Cleared.append (h : Cleared ids n) (hsame : SameBut new n n') (hnew : Cleared new n') :
    Cleared (ids ++ new) n' := by
  intro id hid
  by_cases hmem : id ∈ new
  · exact hnew id hmem
  · obtain ⟨hsession, hbinding⟩ := h id ((List.mem_append.1 hid).resolve_right hmem)
    rw [hsame.registry.session id hmem, hsame.binding hmem]
    exact ⟨hsession, hbinding⟩

theorem comes_dropLinks (hother : ∀ h ∈ built, h.address ≠ n.sessionService) :
    Comes n (built.forM fun h => dropLink h.address h.link) fun t _ n' =>
      n' = n ∧ List.Forall₂ (fun h s => s.Drops h.address h.link) built t := by
  induction built with
  | nil => exact Comes.pure ⟨rfl, .nil⟩
  | cons h rest ih =>
      refine Comes.bind (comes_dropLink (hother h List.mem_cons_self) h.link) ?_
      rintro _ _ _ ⟨rfl, s, rfl, hdrops⟩
      refine (ih fun h' hh' => hother h' (List.mem_cons_of_mem h hh')).mono ?_
      rintro t _ n' ⟨rfl, hrest⟩
      exact ⟨rfl, .cons hdrops hrest⟩

theorem comes_closeSessions (built : List OpenHop) :
    Comes n (built.forM fun h => do
        closeSession h.session
        modify (updateDirectory (·.forgetPeer h.identity)))
      fun t _ n' => t = [] ∧ SameBut (built.map (·.session)) n n' ∧
        Cleared (built.map (·.session)) n' := by
  induction built generalizing n with
  | nil => exact Comes.pure ⟨rfl, .refl [] n, by simp [Cleared]⟩
  | cons h rest ih =>
      refine Comes.bind (P := fun t _ n' => t = [] ∧ SameBut [h.session] n n' ∧
        Cleared [h.session] n') ?_ ?_
      · refine Comes.bind (comes_closeSession h.session) ?_
        rintro _ _ n₁ ⟨rfl, hsame, hcleared⟩
        apply Comes.modifyGet
        refine ⟨rfl, hsame.trans (.updateDirectory (fun d id _ => by simp) n₁), ?_⟩
        intro id hid
        obtain ⟨hsession, hbinding⟩ := hcleared id hid
        refine ⟨?_, ?_⟩
        · rw [sessions_updateDirectory]
          exact hsession
        · rw [directory_updateDirectory, PeerDirectory.identityOf?_forgetPeer]
          exact hbinding
      · rintro _ _ n₁ ⟨rfl, hsame, hcleared⟩
        refine ih.mono ?_
        rintro _ _ n' ⟨rfl, hsame', hcleared'⟩
        refine ⟨rfl, ?_, hcleared.append hsame' hcleared'⟩
        exact (hsame.mono (by simp)).trans (hsame'.mono (List.subset_cons_self _ _))

/-- Releasing open hops clears the sessions with them, once the hops that the owner speaks to have
been told. -/
theorem comes_release (hother : ∀ h ∈ notified mode built, h.address ≠ n.sessionService) :
    Comes n (release mode built) fun t _ n' =>
      List.Forall₂ (fun h s => s.Drops h.address h.link) (notified mode built) t ∧
      SameBut (built.map (·.session)) n n' ∧ Cleared (built.map (·.session)) n' := by
  refine Comes.bind (comes_dropLinks hother) ?_
  rintro t _ _ ⟨rfl, hdrops⟩
  refine (comes_closeSessions built).mono ?_
  rintro _ _ n' ⟨rfl, hsame, hcleared⟩
  rw [List.append_nil]
  exact ⟨hdrops, hsame, hcleared⟩

/-! ### Hop after hop -/

/-- The hops that the owner sends messages to. -/
def addressed (mode : TunnelMode) (hops : List Hop) : List Hop :=
  match mode with
  | .direct => hops
  | .relayed => hops.take 1

/-- Hops have been opened one after the other, each one by a single message that took the handshake
to it. -/
inductive Opened (mode : TunnelMode) (n₀ : Node) :
    List Hop → List OpenHop → List Sent → Node → Prop
  | nil : Opened mode n₀ [] [] [] n₀
  | snoc {hops : List Hop} {built : List OpenHop} {t : List Sent} {n n' : Node} {hop : Hop}
      {h : OpenHop} {s : Sent} (before : Opened mode n₀ hops built t n)
      (run : Runs (openHop hop (routeBy mode built)).run n [s] (.ok h) n')
      (dials : Dials n (routeBy mode built) hop s)
      (returns : routeBy mode built = [] → ∃ handshake, s.Returns h.link handshake) :
      Opened mode n₀ (hops ++ [hop]) (built ++ [h]) (t ++ [s]) n'

/-- Established sessions with hops are all that has come to a node. -/
structure Standing (n₀ : Node) (hops : List Hop) (built : List OpenHop) (n : Node) : Prop where
  holds : List.Forall₂ (Holds n) hops built
  free : ∀ id ∈ built.map (·.session), n₀.registry.sessions.get? id = none
  same : SameBut (built.map (·.session)) n₀ n

/-- A hop could not be opened after those before it, which have been released. -/
inductive Fails (mode : TunnelMode) (hops : List Hop) (n₀ : Node) :
    Nat → TunnelError → List Sent → Prop
  | stop {hop : Hop} {built : List OpenHop} {dials attempt drops : List Sent} {n n' : Node}
      {cause : TunnelError} (next : hops[built.length]? = some hop)
      (opened : Opened mode n₀ (hops.take built.length) built dials n)
      (holds : List.Forall₂ (Holds n) (hops.take built.length) built)
      (run : Runs (openHop hop (routeBy mode built)).run n attempt (.error cause) n')
      (missed : Missed n (routeBy mode built) hop attempt)
      (drops_eq : List.Forall₂ (fun h s => s.Drops h.address h.link) (notified mode built) drops) :
      Fails mode hops n₀ built.length cause (dials ++ attempt ++ drops)

theorem Standing.nil (n₀ : Node) : Standing n₀ [] [] n₀ :=
  ⟨.nil, by simp, .refl [] n₀⟩

/-- The sessions with open hops can carry layers. -/
theorem exists_sessions (h : List.Forall₂ (Holds n) hops built) :
    ∃ xs : List Session, (built.map (·.session)).map n.registry.holdings = xs.map some ∧
      ∀ x ∈ xs, x.Usable := by
  induction h with
  | nil => exact ⟨[], rfl, by simp⟩
  | cons hholds _ ih =>
      obtain ⟨xs, hxs, husable⟩ := ih
      obtain ⟨x, hx, -, -, hx'⟩ := hholds.session
      refine ⟨x :: xs, ?_, ?_⟩
      · rw [List.map_cons, List.map_cons, List.map_cons, hx, hxs]
      · intro y hy
        obtain rfl | hy := List.mem_cons.1 hy
        · exact hx'
        · exact husable y hy

theorem exists_sessions_routeBy (mode : TunnelMode) (h : List.Forall₂ (Holds n) hops built) :
    ∃ xs : List Session,
      ((routeBy mode built).map (·.session)).map n.registry.holdings = xs.map some ∧
        ∀ x ∈ xs, x.Usable := by
  cases mode with
  | direct => exact ⟨[], rfl, by simp⟩
  | relayed => exact exists_sessions h

theorem map_routeBy_subset (mode : TunnelMode) (built : List OpenHop) :
    (routeBy mode built).map (·.session) ⊆ built.map (·.session) := by
  cases mode with
  | direct => exact List.nil_subset _
  | relayed => exact List.Subset.refl _

/-- A number that has no session next to the open hops had none before them. -/
theorem Standing.free_of_free (h : Standing n₀ hops built n) {id : UInt32}
    (hfree : n.registry.sessions.get? id = none) : n₀.registry.sessions.get? id = none := by
  by_cases hmem : id ∈ built.map (·.session)
  · exact h.free id hmem
  · rw [← h.same.registry.session id hmem]
    exact hfree

/-- One more hop stands after those before it. -/
theorem Standing.snoc (h : Standing n₀ hops built n) {h' : OpenHop}
    (hopens : Opening n (routeBy mode built) hop t h' n') :
    Standing n₀ (hops ++ [hop]) (built ++ [h']) n' := by
  constructor
  case holds =>
    refine List.rel_append (h.holds.imp ?_) (.cons hopens.holds .nil)
    intro hop' h'' hholds
    have hne : h''.session ≠ h'.session := by
      intro heq
      obtain ⟨x, hx, -⟩ := hholds.session
      rw [heq, get?_eq_none_iff.1 hopens.free] at hx
      cases hx
    refine ⟨hholds.address_eq, hholds.identity_eq, ?_⟩
    rw [hopens.held _ hne]
    exact hholds.session
  case free =>
    intro id hmem
    rw [List.map_append, List.map_singleton] at hmem
    obtain hmem | hmem := List.mem_append.1 hmem
    · exact h.free id hmem
    · obtain rfl := List.mem_singleton.1 hmem
      exact h.free_of_free hopens.free
  case same =>
    rw [List.map_append, List.map_singleton]
    refine (h.same.mono (List.subset_append_left _ _)).trans (hopens.same.mono ?_)
    intro id hid
    obtain rfl | hid := List.mem_cons.1 hid
    · simp
    · exact List.mem_append_left _ (map_routeBy_subset mode built hid)

/-! ### Where messages go -/

theorem addressed_append (mode : TunnelMode) (hops rest : List Hop) :
    addressed mode hops ⊆ addressed mode (hops ++ rest) := by
  cases mode with
  | direct => exact List.subset_append_left _ _
  | relayed =>
    cases hops with
    | nil => exact List.nil_subset _
    | cons hop hops => exact List.Subset.refl _

theorem exists_hop_of_mem (h : List.Forall₂ (Holds n) hops built) {h' : OpenHop}
    (hmem : h' ∈ built) : ∃ hop ∈ hops, h'.address = hop.address := by
  induction h with
  | nil => cases hmem
  | cons hholds _ ih =>
      obtain rfl | hmem := List.mem_cons.1 hmem
      · exact ⟨_, List.mem_cons_self, hholds.address_eq⟩
      · obtain ⟨hop, hhop, haddress⟩ := ih hmem
        exact ⟨hop, List.mem_cons_of_mem _ hhop, haddress⟩

/-- What the owner tells when a tunnel goes is told to hops that it speaks to. -/
theorem exists_hop_of_mem_notified (h : List.Forall₂ (Holds n) hops built) {h' : OpenHop}
    (hmem : h' ∈ notified mode built) : ∃ hop ∈ addressed mode hops, h'.address = hop.address := by
  cases mode with
  | direct => exact exists_hop_of_mem h hmem
  | relayed => exact exists_hop_of_mem (List.forall₂_take 1 h) hmem

/-- What the owner sends for a hop goes to a hop that it speaks to. -/
theorem exists_hop_of_entrance (mode : TunnelMode) (hop : Hop) (rest : List Hop)
    (h : List.Forall₂ (Holds n) hops built) : ∃ hop' ∈ addressed mode (hops ++ hop :: rest),
      entrance (routeBy mode built) hop = hop'.address := by
  cases mode with
  | direct => exact ⟨hop, by simp [addressed], rfl⟩
  | relayed =>
    cases h with
    | nil => exact ⟨hop, List.mem_cons_self, rfl⟩
    | cons hholds _ => exact ⟨_, List.mem_cons_self, hholds.address_eq⟩

/-! ### Building -/

/-- Numbers that had no sessions have been used and cleared. -/
def Undone (n n' : Node) : Prop :=
  ∃ ids, (∀ id ∈ ids, n.registry.sessions.get? id = none) ∧ SameBut ids n n' ∧ Cleared ids n'

/-- Once the open hops are released, what was done for them and for the next one is undone. -/
theorem Standing.undone {n₁ n₂ : Node} (h : Standing n₀ hops built n)
    (habandoned : Abandoned n (routeBy mode built) hop t n₁)
    (hsame : SameBut (built.map (·.session)) n₁ n₂) (hcleared : Cleared (built.map (·.session)) n₂) :
    Undone n₀ n₂ := by
  obtain ⟨ids, hfree, hsame₁, hcleared₁⟩ := habandoned.cleared
  refine ⟨ids ++ built.map (·.session), ?_, ?_, hcleared₁.append hsame hcleared⟩
  · intro id hid
    obtain hid | hid := List.mem_append.1 hid
    · exact h.free_of_free (hfree id hid)
    · exact h.free id hid
  · have hsame₁' : SameBut (ids ++ built.map (·.session)) n n₁ := by
      apply hsame₁.mono
      exact List.append_subset.2 ⟨List.subset_append_left _ _,
        List.subset_append_of_subset_right _ (map_routeBy_subset mode built)⟩
    exact ((h.same.mono (List.subset_append_right _ _)).trans hsame₁').trans
      (hsame.mono (List.subset_append_right _ _))

/-- What an attempt to open hops has come to if it fails: it has stopped at one of them, and all
that was done is undone. -/
def Stops (mode : TunnelMode) (hops : List Hop) (n : Node) (t : List Sent)
    (res : Except TunnelError (List OpenHop)) (n' : Node) : Prop :=
  ∀ e, res = .error e →
    (∃ k cause, e = .buildFailed k cause ∧ Fails mode hops n k cause t) ∧ Undone n n'

/-- The open hops are released after a hop that could not be opened. -/
theorem Standing.acts_release {n₁ : Node} {cause : TunnelError} {attempt : List Sent}
    (hstanding : Standing n₀ hops built n) (hopened : Opened mode n₀ hops built dials n)
    (hother : ∀ hop ∈ addressed mode hops, hop.address ≠ n₀.sessionService)
    (hrun : Runs (openHop hop (routeBy mode built)).run n attempt (.error cause) n₁)
    (habandoned : Abandoned n (routeBy mode built) hop attempt n₁) :
    Acts n₁ (do release mode built; throw (.buildFailed built.length cause)) fun t res n' =>
      Stops mode (hops ++ hop :: rest) n₀ (dials ++ (attempt ++ t)) res n' := by
  have hnotified : ∀ h ∈ notified mode built, h.address ≠ n₁.sessionService := by
    intro h hmem
    obtain ⟨hop', hmem', haddress⟩ := exists_hop_of_mem_notified hstanding.holds hmem
    obtain ⟨ids, -, hsame, -⟩ := habandoned.cleared
    rw [haddress, hsame.service, hstanding.same.service]
    exact hother hop' hmem'
  refine Acts.after (comes_release hnotified) ?_
  rintro t _ n₂ ⟨hdrops, hsame, hcleared⟩
  apply Acts.throw
  rintro _ ⟨⟩
  refine ⟨⟨built.length, cause, rfl, ?_⟩, hstanding.undone habandoned hsame hcleared⟩
  have hlength := hstanding.holds.length_eq
  have htake : (hops ++ hop :: rest).take built.length = hops := by
    rw [← hlength, List.take_left]
  rw [List.append_nil, ← List.append_assoc]
  apply Fails.stop
  case next =>
    rw [← hlength, List.getElem?_append_right (Nat.le_refl _), Nat.sub_self]
    exact List.getElem?_cons_zero
  case opened =>
    rw [htake]
    exact hopened
  case holds =>
    rw [htake]
    exact hstanding.holds
  case run => exact hrun
  case missed => exact habandoned.missed
  case drops_eq => exact hdrops

/-- If a hop of a list cannot be opened, all that was done is undone. -/
theorem acts_openHops (hopened : Opened mode n₀ hops built dials n)
    (hstanding : Standing n₀ hops built n)
    (hother : ∀ hop ∈ addressed mode (hops ++ rest), hop.address ≠ n₀.sessionService) :
    Acts n (openHops mode built rest) fun t res n' =>
      Stops mode (hops ++ rest) n₀ (dials ++ t) res n' := by
  induction rest generalizing hops built dials n with
  | nil => exact Acts.pure nofun
  | cons hop rest ih =>
      obtain ⟨xs, hxs, husable⟩ := exists_sessions_routeBy mode hstanding.holds
      have hentrance : entrance (routeBy mode built) hop ≠ n.sessionService := by
        obtain ⟨hop', hmem, haddress⟩ := exists_hop_of_entrance mode hop rest hstanding.holds
        rw [haddress, hstanding.same.service]
        exact hother hop' hmem
      refine Acts.attempt (acts_openHop hxs husable hentrance).and_runs ?_
      rintro t₁ _ n₁ ⟨⟨h, rfl, hopens⟩ | ⟨⟨cause, rfl⟩, habandoned⟩, hrun⟩
      · obtain ⟨s, rfl, hdials, hreturns⟩ := hopens.sent
        have hsplit : hops ++ hop :: rest = hops ++ [hop] ++ rest := by simp
        rw [hsplit] at hother ⊢
        refine (ih (hopened.snoc hrun hdials hreturns) (hstanding.snoc hopens) hother).mono ?_
        intro t res n' hstops
        rw [← List.append_assoc]
        exact hstops
      · have hother' : ∀ hop ∈ addressed mode hops, hop.address ≠ n₀.sessionService :=
          fun hop' hmem => hother hop' (addressed_append mode hops _ hmem)
        exact hstanding.acts_release hopened hother' hrun habandoned

/-- The owner has the sessions and the tunnels that it had before. It remembers the same peers of
sessions, except that it may have forgotten one whose session was gone already. -/
structure Restored (n n' : Node) : Prop where
  session : ∀ id, n'.registry.sessions.get? id = n.registry.sessions.get? id
  slot : ∀ id, n'.tunnels.slots.get? id = n.tunnels.slots.get? id
  binding : ∀ id, n'.directory.identityOf? id = n.directory.identityOf? id ∨
    n.registry.sessions.get? id = none ∧ n'.directory.identityOf? id = none

/-- Why a build fails, and what it has sent by then. -/
inductive Failure (mode : TunnelMode) (hops : List Hop) (n : Node) :
    TunnelError → List Sent → Prop
  | empty (nil : hops = []) : Failure mode hops n .emptyHopChain []
  | exhausted {how : IdExhausted} (ne_nil : hops ≠ []) (spent : ¬ n.tunnels.Spare) :
      Failure mode hops n (.exhausted how) []
  | stopped {k : Nat} {cause : TunnelError} {t : List Sent} (spare : n.tunnels.Spare)
      (fails : Fails mode hops { n with tunnels := n.tunnels.reserve.2 } k cause t) :
      Failure mode hops n (.buildFailed k cause) t

theorem Undone.restored {tunnels tunnels' : TunnelTable}
    (h : Undone { n with tunnels := tunnels } n')
    (hslots : ∀ id, tunnels'.slots.get? id = n.tunnels.slots.get? id) :
    Restored n { n' with tunnels := tunnels' } := by
  obtain ⟨ids, hfree, hsame, hcleared⟩ := h
  refine ⟨?_, hslots, ?_⟩
  · intro id
    by_cases hid : id ∈ ids
    · exact (hcleared id hid).1.trans (hfree id hid).symm
    · exact hsame.registry.session id hid
  · intro id
    by_cases hid : id ∈ ids
    · exact .inr ⟨hfree id hid, (hcleared id hid).2⟩
    · exact .inl (hsame.binding hid)

theorem acts_reserveTunnel :
    Acts n reserveTunnel fun t res n' => t = [] ∧
      n' = { n with tunnels := n.tunnels.reserve.2 } ∧
      res = n.tunnels.reserve.1.mapError .exhausted := by
  apply Acts.get
  obtain ⟨id?, tunnels⟩ := n.tunnels.reserve
  apply Acts.change
  cases id? with
  | ok id => exact Acts.pure ⟨rfl, rfl, rfl⟩
  | error e => exact Acts.throw ⟨rfl, rfl, rfl⟩

/-- A build that fails says why, and leaves the owner as it was before. -/
theorem acts_build (hother : ∀ hop ∈ addressed mode hops, hop.address ≠ n.sessionService) :
    Acts n (build mode hops) fun t res n' => ∀ e, res = .error e →
      Failure mode hops n e t ∧ Restored n n' := by
  unfold build
  cases hlast : hops.getLast? with
  | none =>
    apply Acts.throw
    rintro _ ⟨⟩
    have hnil := List.getLast?_eq_none_iff.1 hlast
    exact ⟨.empty hnil, fun _ => rfl, fun _ => rfl, fun _ => .inl rfl⟩
  | some destination =>
    have hne : hops ≠ [] := by
      rintro rfl
      cases hlast
    refine Acts.bind acts_reserveTunnel ?_ ?_
    · rintro _ id _ ⟨rfl, rfl, hres⟩
      obtain ⟨id', hid, hspare, hfree, hslots⟩ | ⟨⟨e, he⟩, -⟩ := n.tunnels.reserve_cases
      · rw [hid] at hres
        obtain rfl : id = id' := Except.ok.inj hres
        refine Acts.attempt (acts_openHops .nil (.nil _) hother) ?_
        rintro t (e | built) n₁ hstops
        · apply Acts.change
          apply Acts.throw
          rintro _ ⟨⟩
          obtain ⟨⟨k, cause, rfl, hfails⟩, hundone⟩ := hstops e rfl
          rw [List.append_nil]
          have htunnels : n₁.tunnels = n.tunnels.reserve.2 := by
            obtain ⟨ids, -, hsame, -⟩ := hundone
            exact hsame.tunnels
          refine ⟨.stopped hspare hfails, hundone.restored ?_⟩
          rw [htunnels]
          exact TunnelTable.get?_abandon hfree hslots
        · apply Acts.change
          exact Acts.pure nofun
      · rw [he] at hres
        cases hres
    · rintro t e _ ⟨rfl, rfl, hres⟩ _ ⟨⟩
      obtain ⟨id, hid, -⟩ | ⟨⟨how, he⟩, hspent, hslots⟩ := n.tunnels.reserve_cases
      · rw [hid] at hres
        cases hres
      · rw [he] at hres
        obtain rfl : e = .exhausted how := Except.error.inj hres
        refine ⟨.exhausted hne hspent, fun _ => rfl, ?_, fun _ => .inl rfl⟩
        intro id
        rw [hslots]

/-- Whatever the peers do, a build that fails has failed for the reason that it gives, has sent
nothing for later hops, has told the open hops that the owner speaks to, and has left the owner with
the sessions and the tunnels that it had. It is assumed that no hop that the owner speaks to is
given by the address of its own session service. -/
theorem rolledBack_of_build_error {e : TunnelError}
    (hother : ∀ hop ∈ addressed mode hops, hop.address ≠ n.sessionService)
    (hrun : Runs (build mode hops).run n t (.error e) n') :
    Failure mode hops n e t ∧ Restored n n' :=
  acts_build hother t (.error e) n' hrun e rfl

/-! ### Runs of failing builds -/

/-- A hop at an address of its own. -/
def farHop : Hop := ⟨.quad 10 0 0 2 7014, Keypair.ofMersenne.hostkey⟩

/-- A hop at an address where nobody answers. -/
def deadHop : Hop := ⟨.quad 10 0 0 9 7014, Keypair.ofMersenne.hostkey⟩

/-- What comes of messages when one hop answers, by a registry without sessions, and nobody else. -/
def farAnswers (dest : Address) (m : Message) : Outcome :=
  if dest = farHop.address then Outcome.ofReply (loopNode.registry.handle 0 m).1
  else .error (.refused dest)

theorem runs_of_replay {α : Type} (p : Program Node α) (n : Node) {a : α}
    (h : (replay 0 farAnswers p n).2.1 = a) :
    ∃ t n', Runs p n t a n' ∧ n' = (replay 0 farAnswers p n).2.2 :=
  ⟨_, _, h ▸ runs_replay 0 farAnswers p n, rfl⟩

/-- The first hop of a direct tunnel is opened and the second one does not answer. -/
theorem rolledBack_of_build_error_dead :
    (∀ hop ∈ addressed .direct [farHop, deadHop], hop.address ≠ loopNode.sessionService) ∧
    ∃ t n', Runs (build .direct [farHop, deadHop]).run loopNode t
        (.error (.buildFailed 1 (.connection (.refused deadHop.address)))) n' ∧
      Failure .direct [farHop, deadHop] loopNode
        (.buildFailed 1 (.connection (.refused deadHop.address))) t ∧ Restored loopNode n' := by
  have hother : ∀ hop ∈ addressed .direct [farHop, deadHop],
      hop.address ≠ loopNode.sessionService := by decide +kernel
  obtain ⟨t, n', hrun, -⟩ := runs_of_replay (build .direct [farHop, deadHop]).run loopNode
    (a := .error (.buildFailed 1 (.connection (.refused deadHop.address)))) (by decide +kernel)
  exact ⟨hother, t, n', hrun, rolledBack_of_build_error hother hrun⟩

/-- A node with a peer directory of its own that draws one number for a session twice. -/
def repeatingNode : Node :=
  { loopNode with
    registry := { loopNode.registry with ids := .ofList [5, 5] 16 }
    ownDirectory? := some .empty }

/-- The node's own session service, given as a hop. -/
def ownHop : Hop := ⟨loopNode.sessionService, Keypair.ofMersenne.hostkey⟩

/-- A build that fails does not restore everything. A peer of a session that was closed behind the
owner's back is forgotten if the session's number comes up again. A session service that is dialled
as a hop accepts a session in person, which is not closed. -/
theorem build_error_not_exact :
    (∃ t₁ id n₁ t₂ e n₂, Runs (build .direct [farHop]).run repeatingNode t₁ (.ok id) n₁ ∧
      Runs (build .direct [deadHop]).run { n₁ with registry := n₁.registry.close 5 } t₂
        (.error e) n₂ ∧
      n₁.directory.identityOf? 5 = some farHop.identity ∧ n₂.directory.identityOf? 5 = none) ∧
    ∃ t e n', Runs (build .direct [ownHop, deadHop]).run loopNode t (.error e) n' ∧
      (loopNode.registry.sessions.get? 2).isSome = false ∧
      (n'.registry.sessions.get? 2).isSome = true := by
  constructor
  · obtain ⟨t₁, n₁, hrun₁, hn₁⟩ := runs_of_replay (build .direct [farHop]).run repeatingNode
      (a := .ok 1) (by decide +kernel)
    obtain ⟨t₂, n₂, hrun₂, hn₂⟩ := runs_of_replay (build .direct [deadHop]).run
      { n₁ with registry := n₁.registry.close 5 }
      (a := .error (.buildFailed 0 (.connection (.refused deadHop.address))))
      (by rw [hn₁]; decide +kernel)
    refine ⟨t₁, 1, n₁, t₂, _, n₂, hrun₁, hrun₂, ?_, ?_⟩
    · rw [hn₁]
      decide +kernel
    · rw [hn₂, hn₁]
      decide +kernel
  · obtain ⟨t, n', hrun, hn'⟩ := runs_of_replay (build .direct [ownHop, deadHop]).run loopNode
      (a := .error (.buildFailed 1 (.connection (.refused deadHop.address)))) (by decide +kernel)
    refine ⟨t, _, n', hrun, by decide +kernel, ?_⟩
    rw [hn']
    decide +kernel

end Node

end OnionTunnel
