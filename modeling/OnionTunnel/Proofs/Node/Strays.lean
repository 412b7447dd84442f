import OnionTunnel.Proofs.Node.Payloads

/-!
# Stray cells

The hops of a direct tunnel do not pass cells on to each other, so a payload for several of them gets
to the first hop in a layer of the last one. Nothing is known of the text that the first hop takes
for its own. It may have the hop extend its link, and then the next such payload goes on from there.
So a cell that goes astray finds the strand at the first hop as it is and leaves it the same or longer
by one link that was not there. Everything else stays.
-/

namespace OnionTunnel.Network

open Function SessionRegistry

variable {n : Nat} {S : Setting n} {V : Network n → Prop} {now : Instant} {depth : Nat}
  {i j : Fin n} {b b' : Books n} {id : UInt32} {peer : Identity} {next : Downstream}
  {ends : List (End n)}

/-! ### Texts of which nothing is known -/

/-- What a hop at the end of a strand has done: nothing, or it has handed something to its sink, or it
has extended its link. -/
inductive Executed (S : Setting n) (b : Books n) (i : Fin n) (id : UInt32) (peer : Identity) :
    Books n → Prop
  | refused : Executed S b i id peer b
  | delivered (d : Delivery) : Executed S b i id peer (b.hand i d)
  | extended {nextHop : Address} {hostkey handshake returned : Bytes} {s : ServiceOf n}
      {link : UInt32} {y : Session}
      (haccepts : Accepts S b nextHop hostkey handshake s link y returned) :
      Executed S b i id peer ((b.opened s link y (.ofHostkey hostkey)).setLink i id
        (some ⟨peer, some ⟨nextHop, link⟩⟩))

theorem does_extendLink_any (hS : S.Honest) (hlink : (b i).link id = some ⟨peer, none⟩)
    (hheld : (b i).session id ≠ none) (nextHop : Address) (incoming : Bytes) :
    Does S V now (depth + 2) i b (Node.extendLink id nextHop incoming) fun _ b' =>
      Executed S b i id peer b' := by
  cases hincoming : Message.decode incoming with
  | error e => exact does_ofFrame_error hincoming .refused
  | ok m =>
    by_cases hhandshake : ∃ hostkey handshake, m = .incomingHandshake1 hostkey handshake
    · obtain ⟨hostkey, handshake, rfl⟩ := hhandshake
      refine (does_extendLink hS.own hlink hheld hincoming (hS.services nextHop)).mono ?_
      rintro _ _ (⟨_, -, s, link, y, returned, haccepts, -, rfl⟩ | ⟨-, rfl, -⟩)
      · exact .extended haccepts
      · exact .refused
    · refine does_ofFrame hincoming ?_
      split
      · next hostkey handshake => exact (hhandshake ⟨hostkey, handshake, rfl⟩).elim
      · exact Does.throw .refused

/-- A hop whose link goes nowhere yet does what any text says. -/
theorem does_execute_any (hS : S.Honest) (hlink : (b i).link id = some ⟨peer, none⟩)
    (hheld : (b i).session id ≠ none) (command : Bytes) :
    Does S V now (depth + 2) i b (Node.execute id peer command) fun _ b' =>
      Executed S b i id peer b' := by
  cases hcommand : Message.decode command with
  | error e => exact does_ofFrame_error hcommand .refused
  | ok m =>
    refine does_ofFrame hcommand ?_
    split
    · next nextHop incoming => exact does_extendLink_any hS hlink hheld nextHop incoming
    · next link payload =>
      split
      · refine (does_deliver ⟨id, peer, payload⟩).mono ?_
        rintro _ _ ⟨-, rfl⟩
        exact .delivered _
      · exact Does.throw .refused
    · exact Does.throw .refused

/-! ### What a stray cell leaves -/

/-- Sessions are as they were, but for new ones, and so are the links but for those at some ends. -/
structure Spared (b : Books n) (ends : List (End n)) (b' : Books n) : Prop where
  session : ∀ j x, (b j).session x ≠ none → (b' j).session x = (b j).session x
  link : ∀ j x, (b j).session x ≠ none → (j, x) ∉ ends → (b' j).link x = (b j).link x
  slot : ∀ j, (b' j).slot = (b j).slot
  linksHeld : LinksHeld b'

theorem Spared.refl (hlinks : LinksHeld b) : Spared b ends b :=
  ⟨fun _ _ _ => rfl, fun _ _ _ _ => rfl, fun _ => rfl, hlinks⟩

theorem Spared.mono {ends' : List (End n)} (h : Spared b ends b') (hsub : ends ⊆ ends') :
    Spared b ends' b' where
  session := h.session
  link j x hsome hnot := h.link j x hsome fun hend => hnot (hsub hend)
  slot := h.slot
  linksHeld := h.linksHeld

/-- A strand has been left as it was, or has become longer by ends that were not there. -/
structure Strayed (S : Setting n) (b : Books n) (next : Downstream) (ends : List (End n))
    (b' : Books n) : Prop extends Spared b ends b' where
  strand : ∃ more, Strand S b' (some next) (ends ++ more) ∧ more.Nodup ∧
    ∀ j x, (j, x) ∈ more → (b j).session x = none

theorem Strayed.refl (h : Strand S b (some next) ends) (hlinks : LinksHeld b) :
    Strayed S b next ends b where
  toSpared := .refl hlinks
  strand := ⟨[], by rwa [List.append_nil], List.nodup_nil, nofun⟩

section Last
variable {y : Session}

theorem Executed.spared (h : Executed S b j id peer b') (hlinks : LinksHeld b)
    (hy : (b j).session id = some y) : Spared b [(j, id)] b' := by
  cases h with
  | refused => exact .refl hlinks
  | delivered d =>
    refine ⟨by simp, by simp, by simp, ?_⟩
    intro k x hsome
    simpa using hlinks k x (by simpa using hsome)
  | @extended nextHop hostkey handshake returned s link y' haccepts =>
    have hsession : ∀ k x, (b k).session x ≠ none → (k, x) ≠ (s.owner, link) := by
      rintro _ _ hsome ⟨⟩
      exact hsome haccepts.fresh
    refine ⟨?_, ?_, by simp, ?_⟩
    · intro k x hsome
      simp [hsession k x hsome]
    · intro k x hsome hnot
      rw [List.mem_singleton] at hnot
      simp only [Books.setLink_apply, if_neg hnot]
      exact Books.link_opened_of_ne _ _ _ _ _ fun _ => hsession k x hsome
    · intro k x hsome
      simp only [Books.setLink_apply, Books.session_opened] at hsome ⊢
      split
      · simp
      · next hne =>
        split at hsome
        · next heq =>
          obtain ⟨rfl, rfl⟩ := Prod.mk.inj heq
          simp [hy]
        · rw [Books.link_opened_of_ne _ _ _ _ _ fun _ => hne] at hsome
          exact hlinks k x hsome

/-- A link that has been accepted hangs where it was asked for. -/
theorem Accepts.strand {nextHop : Address} {hostkey handshake returned : Bytes} {s : ServiceOf n}
    {link : UInt32} {y' : Session} (h : Accepts S b nextHop hostkey handshake s link y' returned)
    (hne : (s.owner, link) ≠ (j, id)) (peer : Identity) (l? : Option Link) :
    ∃ more, Strand S ((b.opened s link y' peer).setLink j id l?) (some ⟨nextHop, link⟩) more ∧
      more.Nodup ∧ ∀ k x, (k, x) ∈ more → (b k).session x = none := by
  obtain ⟨k, service⟩ := s
  cases service with
  | sessions => exact ⟨[], .lost h.place, List.nodup_nil, nofun⟩
  | clients => exact (h.kind rfl).elim
  | peers =>
    refine ⟨[(k, link)], ?_, List.nodup_singleton _, ?_⟩
    · have hlink : ((b.opened ⟨k, .peers⟩ link y' peer).setLink j id l? k).link link =
          some ⟨peer, none⟩ := by
        simp only [Books.setLink_apply, if_neg hne]
        exact Books.link_opened_self b ⟨k, .peers⟩ link y' peer rfl
      exact .cons h.place (by simp) (usable_of_answered h.answered) hlink .nil
    · intro k' x hmem
      obtain ⟨rfl, rfl⟩ := Prod.mk.inj (List.mem_singleton.1 hmem)
      exact h.fresh

/-- What the last hop of a strand has done leaves the strand the same or longer. -/
theorem Executed.strayed (h : Executed S b j next.link peer b') (hlinks : LinksHeld b)
    (hdest : S.serviceAt? next.address = some ⟨j, .peers⟩)
    (hy : (b j).session next.link = some y) (husable : y.Usable)
    (hlink : (b j).link next.link = some ⟨peer, none⟩) :
    Strayed S b next [(j, next.link)] b' where
  toSpared := h.spared hlinks hy
  strand := by
    cases h with
    | refused => exact ⟨[], .cons hdest hy husable hlink .nil, List.nodup_nil, nofun⟩
    | delivered d =>
      have hkept : (b.hand j d j).link next.link = some ⟨peer, none⟩ := by simpa using hlink
      exact ⟨[], .cons hdest (by simpa using hy) husable hkept .nil, List.nodup_nil, nofun⟩
    | @extended nextHop hostkey handshake returned s link y' haccepts =>
      have hne : (s.owner, link) ≠ (j, next.link) := by
        rintro ⟨⟩
        exact Option.some_ne_none y (hy.symm.trans haccepts.fresh)
      obtain ⟨more, hmore, hnodup, hfresh⟩ := haccepts.strand hne (.ofHostkey hostkey)
        (some ⟨peer, some ⟨nextHop, link⟩⟩)
      have hlinked : ((b.opened s link y' (.ofHostkey hostkey)).setLink j next.link
          (some ⟨peer, some ⟨nextHop, link⟩⟩) j).link next.link =
            some ⟨peer, some ⟨nextHop, link⟩⟩ := by simp
      refine ⟨more, .cons hdest ?_ husable hlinked hmore, hnodup, hfresh⟩
      simpa [hne.symm] using hy

/-- What is left of the rest of a strand is left of the whole. -/
theorem Strayed.cons {next' : Downstream} {link : Link} (h : Strayed S b next' ends b')
    (hdest : S.serviceAt? next.address = some ⟨j, .peers⟩)
    (hy : (b j).session next.link = some y) (husable : y.Usable)
    (hlink : (b j).link next.link = some link) (hdown : link.downstream? = some next')
    (hnot : (j, next.link) ∉ ends) : Strayed S b next ((j, next.link) :: ends) b' where
  toSpared := h.toSpared.mono (List.subset_cons_self _ _)
  strand := by
    have hsome : (b j).session next.link ≠ none := by simp [hy]
    obtain ⟨more, hmore, hnew⟩ := h.strand
    rw [← hdown] at hmore
    refine ⟨more, .cons hdest ?_ husable ?_ hmore, hnew⟩
    · rw [h.session j _ hsome, hy]
    · rw [h.link j _ hsome hnot, hlink]

end Last

/-- Whatever cell goes astray, the strand that it is sent to is left as it was, or longer. -/
theorem does_sendCell_stray (hS : S.Honest) (hlinks : LinksHeld b)
    (h : Strand S b (some next) ends) (hnodup : ends.Nodup) (cell : Bytes) :
    Does S V now (depth + 3 + ends.length) i b (Node.sendCell next.address next.link cell)
      fun _ b' => Strayed S b next ends b' := by
  -- Along the strand, of which each hop may pass something on; only the last one may do it.
  induction ends generalizing i next cell with
  | nil =>
      cases h with
      | lost hdest =>
        refine (does_sendCell_sessions hdest next.link cell).mono ?_
        rintro _ _ ⟨-, rfl⟩
        exact .refl (.lost hdest) hlinks
  | cons e rest ih =>
      have hstrand := h
      cases h with
      | @cons _ j y link _ hdest hy husable hlink hrest =>
        obtain ⟨hnot, hnodup⟩ := List.nodup_cons.1 hnodup
        rw [List.length_cons, show depth + 3 + (rest.length + 1) = depth + rest.length + 2 + 2 by
          omega]
        refine does_sendCell_any hS.own hdest hlink hy husable cell (.refl hstrand hlinks) ?_ ?_ ?_
        · intro inner hdown
          obtain ⟨peer, down?⟩ := link
          obtain rfl : down? = none := hdown
          obtain rfl := hrest.eq_nil
          refine (does_execute_any hS hlink (by simp [hy]) inner).mono ?_
          intro _ b' hexecuted
          exact hexecuted.strayed hlinks hdest hy husable hlink
        · intro inner next' hdown
          rw [hdown] at hrest
          rw [show depth + rest.length + 2 + 1 = depth + 3 + rest.length by omega]
          refine (ih hrest hnodup inner).mono ?_
          intro _ b' hstrayed
          exact hstrayed.cons hdest hy husable hlink hdown hnot
        · intro b' hstrayed
          rw [hstrayed.session j _ (by simp [hy]), hy]

end OnionTunnel.Network
