import Mathlib.Order.Fin.Basic
import OnionTunnel.Proofs.Network.Services

/-!
# Routes on the books

A leg is one hop of a tunnel as the books of all nodes show it: the owner's session, and the session
and the link at the node that answers there. `Linked` says that each hop of a route passes on to the
next one. The ends of legs are the entries that they take up; `Books.without` strikes them out.

## Implementation notes

An address past the first hop of a route is dialled in its canonical form. There a session service
may answer in person, and then no node holds a link. Such a leg has no far end.
-/

namespace OnionTunnel

open Function

variable {n : Nat}

/-- An identifier of a session or a link at a node. -/
abbrev End (n : Nat) := Fin n × UInt32

namespace Books

/-- The books with another link of a node. -/
def setLink (b : Books n) (i : Fin n) (id : UInt32) (l? : Option Link) : Books n :=
  update b i { b i with link := update (b i).link id l? }

/-- The books with other tunnels of a node. -/
def withSlots (b : Books n) (i : Fin n) (slot : UInt32 → Option Slot) : Books n :=
  update b i { b i with slot := slot }

@[simp] theorem withSlots_self (b : Books n) (i : Fin n) : b.withSlots i (b i).slot = b :=
  update_eq_self i b

/-- The books with another tunnel of a node. -/
def setSlot (b : Books n) (i : Fin n) (id : UInt32) (s? : Option Slot) : Books n :=
  b.withSlots i (update (b i).slot id s?)

/-- The books after one more delivery at a node. -/
def hand (b : Books n) (i : Fin n) (d : Delivery) : Books n :=
  update b i { b i with handed := (b i).handed ++ [d] }

/-- The books without the sessions and the links at some ends. -/
def without (b : Books n) (ends : List (End n)) : Books n := fun j =>
  { b j with
    session := fun x => if (j, x) ∈ ends then none else (b j).session x
    link := fun x => if (j, x) ∈ ends then none else (b j).link x }

/-- The books without the sessions at some ends. -/
def closed (b : Books n) (ends : List (End n)) : Books n := fun j =>
  { b j with session := fun x => if (j, x) ∈ ends then none else (b j).session x }

theorem ext {b b' : Books n} (hsession : ∀ j x, (b j).session x = (b' j).session x)
    (hlink : ∀ j x, (b j).link x = (b' j).link x) (hslot : ∀ j x, (b j).slot x = (b' j).slot x)
    (hhanded : ∀ j, (b j).handed = (b' j).handed) : b = b' :=
  funext fun j => Row.ext (funext (hsession j)) (funext (hlink j)) (funext (hslot j)) (hhanded j)

section Entries
variable (b : Books n) (i j : Fin n) (id : UInt32)

@[simp] theorem setSession_apply (s? : Option Session) :
    b.setSession i id s? j =
      { b j with session := fun x => if (j, x) = (i, id) then s? else (b j).session x } := by
  by_cases hj : j = i
  · subst hj
    simp [setSession, withSessions]
    exact funext fun x => update_apply _ _ _ x
  · simp [setSession, withSessions, hj]

@[simp] theorem setLink_apply (l? : Option Link) :
    b.setLink i id l? j =
      { b j with link := fun x => if (j, x) = (i, id) then l? else (b j).link x } := by
  by_cases hj : j = i
  · subst hj
    simp [setLink]
    exact funext fun x => update_apply _ _ _ x
  · simp [setLink, hj]

@[simp] theorem setSlot_apply (s? : Option Slot) :
    b.setSlot i id s? j =
      { b j with slot := fun x => if (j, x) = (i, id) then s? else (b j).slot x } := by
  by_cases hj : j = i
  · subst hj
    simp [setSlot, withSlots]
    exact funext fun x => update_apply _ _ _ x
  · simp [setSlot, withSlots, hj]

@[simp] theorem hand_apply (d : Delivery) :
    b.hand i d j = { b j with handed := if j = i then (b j).handed ++ [d] else (b j).handed } := by
  by_cases hj : j = i
  · subst hj
    simp [hand]
  · simp [hand, hj]

@[simp] theorem without_apply (ends : List (End n)) :
    b.without ends j =
      { b j with
        session := fun x => if (j, x) ∈ ends then none else (b j).session x
        link := fun x => if (j, x) ∈ ends then none else (b j).link x } := rfl

@[simp] theorem closed_apply (ends : List (End n)) :
    b.closed ends j =
      { b j with session := fun x => if (j, x) ∈ ends then none else (b j).session x } := rfl

@[simp] theorem without_nil : b.without [] = b := ext (by simp) (by simp) (by simp) (by simp)

/-- Only which ends there are matters. -/
theorem without_congr {ends ends' : List (End n)} (h : ∀ e, e ∈ ends ↔ e ∈ ends') :
    b.without ends = b.without ends' := by
  refine ext ?_ ?_ (by simp) (by simp)
  all_goals
    intro j x
    simp only [without_apply, h]

theorem without_without (ends ends' : List (End n)) :
    (b.without ends).without ends' = b.without (ends ++ ends') := by
  refine ext ?_ ?_ (fun _ _ => rfl) (fun _ => rfl)
  all_goals
    intro j x
    simp only [without_apply, List.mem_append]
    by_cases h : (j, x) ∈ ends <;> simp [h]

variable {b i id} in
/-- Closing a session that was new leaves the books as they were. -/
theorem setSession_setSession_none (h : (b i).session id = none) (s? : Option Session) :
    (b.setSession i id s?).setSession i id none = b := by
  refine ext ?_ (by simp) (by simp) (by simp)
  intro j x
  simp only [setSession_apply]
  split
  · next heq =>
    obtain ⟨rfl, rfl⟩ := Prod.mk.inj heq
    exact h.symm
  · next hne => rfl

@[simp] theorem setSlot_setSlot (s? s'? : Option Slot) :
    (b.setSlot i id s?).setSlot i id s'? = b.setSlot i id s'? := by
  refine ext (by simp) (by simp) ?_ (by simp)
  intro j x
  simp only [setSlot_apply]
  split <;> rfl

variable {b i id} in
/-- Giving a slot back that was free leaves the books as they were. -/
theorem setSlot_setSlot_none (h : (b i).slot id = none) (s? : Option Slot) :
    (b.setSlot i id s?).setSlot i id none = b := by
  refine ext (by simp) (by simp) ?_ (by simp)
  intro j x
  simp only [setSlot_apply]
  split
  · next heq =>
    obtain ⟨rfl, rfl⟩ := Prod.mk.inj heq
    exact h.symm
  · next hne => rfl

/-- Dropping the link and the session at an end strikes it out. -/
theorem without_singleton : (b.setLink i id none).setSession i id none = b.without [(i, id)] :=
  ext (by simp) (by simp) (by simp) (by simp)

end Entries

end Books
/-! ### Legs -/

/-- The end of a session at a hop. -/
structure Far (n : Nat) where
  node : Fin n
  session : Session

/-- One hop of a tunnel: the open hop as its owner knows it, where it is dialled, the owner's
session, and the end at the hop if the hop holds a link. -/
structure Leg (n : Nat) where
  hop : OpenHop
  dialled : Address
  near : Session
  far? : Option (Far n)

namespace Leg

/-- Where a hop before this one passes cells on to. -/
def target (l : Leg n) : Downstream := ⟨l.dialled, l.hop.link⟩

/-- What the hop takes up at its node. -/
def farEnd? (l : Leg n) : Option (End n) := l.far?.map fun f => (f.node, l.hop.link)

/-- What the leg takes up at the owner and at the hop. -/
def ends (i : Fin n) (l : Leg n) : List (End n) := (i, l.hop.session) :: l.farEnd?.toList

end Leg

/-- What hops take up at their nodes. -/
def farEnds (legs : List (Leg n)) : List (End n) := legs.filterMap Leg.farEnd?

/-- What legs take up at their owner and at the hops. -/
def legEnds (i : Fin n) (legs : List (Leg n)) : List (End n) := legs.flatMap (Leg.ends i)

namespace Network

/-- The identity of a node. -/
def Setting.identity (S : Setting n) (i : Fin n) : Identity :=
  .ofHostkey (S.node i).registry.keypair.hostkey

/-- The end of a leg at a hop: an established session that is paired with the owner's. -/
structure FarHeld (S : Setting n) (b : Books n) (i : Fin n) (l : Leg n) (f : Far n) : Prop where
  accepted : (b f.node).session l.hop.link = some f.session
  handshake_eq : f.session.handshake = ⟨.responder, .established⟩
  peer_eq : f.session.peer = S.identity i
  usable : f.session.Usable
  paired : l.near.Paired f.session

/-- The end of a leg at its owner: an established session. -/
structure NearHeld (b : Books n) (i : Fin n) (l : Leg n) : Prop where
  started : (b i).session l.hop.session = some l.near
  handshake_eq : l.near.handshake = ⟨.initiator, .established⟩
  usable : l.near.Usable

/-- The sessions of a leg stand on the books. -/
structure Held (S : Setting n) (b : Books n) (i : Fin n) (l : Leg n) : Prop where
  near : NearHeld b i l
  far : ∀ f, l.far? = some f → FarHeld S b i l f

/-- A hop holds a link of a peer that goes on to the next hop, or a session service has answered
where the route ends. -/
def Reached (S : Setting n) (b : Books n) (peer : Identity) (l : Leg n)
    (next? : Option Downstream) : Prop :=
  match l.far? with
  | some f => S.serviceAt? l.dialled = some ⟨f.node, .peers⟩ ∧
      (b f.node).link l.hop.link = some ⟨peer, next?⟩
  | none => next? = none ∧ ∃ j, S.serviceAt? l.dialled = some ⟨j, .sessions⟩

/-- Each hop of a route of a peer holds a link that goes on to the next hop. -/
def Linked (S : Setting n) (b : Books n) (peer : Identity) : List (Leg n) → Prop
  | [] => True
  | l :: rest => Reached S b peer l (rest.head?.map Leg.target) ∧ Linked S b peer rest

/-- Every link belongs to a session. -/
def LinksHeld (b : Books n) : Prop := ∀ j x, (b j).link x ≠ none → (b j).session x ≠ none

section Links
variable {S : Setting n} {b b' : Books n} {i : Fin n} {peer : Identity} {legs : List (Leg n)}

theorem Reached.congr {l : Leg n} {next? : Option Downstream} (hreached : Reached S b peer l next?)
    (h : ∀ j x, l.farEnd? = some (j, x) → (b' j).link x = (b j).link x) :
    Reached S b' peer l next? := by
  unfold Reached at hreached ⊢
  cases hfar : l.far? with
  | some f =>
    simp only [hfar] at hreached ⊢
    exact ⟨hreached.1, (h f.node l.hop.link (by simp [Leg.farEnd?, hfar])).trans hreached.2⟩
  | none => simpa only [hfar] using hreached

theorem Linked.congr (hlinked : Linked S b peer legs)
    (h : ∀ j x, (j, x) ∈ farEnds legs → (b' j).link x = (b j).link x) : Linked S b' peer legs := by
  induction legs with
  | nil => trivial
  | cons l rest ih =>
      refine ⟨hlinked.1.congr fun j x hend => ?_, ih hlinked.2 fun j x hend => ?_⟩
      · exact h j x (List.mem_filterMap.2 ⟨l, by simp, hend⟩)
      · obtain ⟨l', hl', hend'⟩ := List.mem_filterMap.1 hend
        exact h j x (List.mem_filterMap.2 ⟨l', by simp [hl'], hend'⟩)

/-- A link stands at each end that the hops of a route take up. -/
theorem Linked.link_isSome (hlinked : Linked S b peer legs) {j : Fin n} {x : UInt32}
    (h : (j, x) ∈ farEnds legs) : ∃ next?, (b j).link x = some ⟨peer, next?⟩ := by
  induction legs with
  | nil => simp [farEnds] at h
  | cons l rest ih =>
      obtain ⟨l', hl', hend⟩ := List.mem_filterMap.1 h
      obtain rfl | hl' := List.mem_cons.1 hl'
      · have hreached := hlinked.1
        unfold Reached at hreached
        cases hfar : l'.far? with
        | none => simp [Leg.farEnd?, hfar] at hend
        | some f =>
          simp only [hfar] at hreached
          simp only [Leg.farEnd?, hfar, Option.map_some, Option.some.injEq, Prod.mk.injEq] at hend
          obtain ⟨rfl, rfl⟩ := hend
          exact ⟨_, hreached.2⟩
      · exact ih hlinked.2 (List.mem_filterMap.2 ⟨l', hl', hend⟩)

/-- A hop of a route goes on to the one at the next place. -/
theorem Linked.reached (hlinked : Linked S b peer legs) {k : Nat} {l : Leg n}
    (hl : legs[k]? = some l) : Reached S b peer l (legs[k + 1]?.map Leg.target) := by
  induction legs generalizing k with
  | nil => cases hl
  | cons l' rest ih =>
      cases k with
      | zero =>
        obtain rfl := Option.some.inj hl
        simpa [List.head?_eq_getElem?] using hlinked.1
      | succ k => exact ih hlinked.2 hl

theorem Linked.sessions_of_far (hlinked : Linked S b peer legs) {l : Leg n} (hl : l ∈ legs)
    (hfar : l.far? = none) : ∃ j, S.serviceAt? l.dialled = some ⟨j, .sessions⟩ := by
  obtain ⟨k, hk⟩ := List.mem_iff_getElem?.1 hl
  have hreached := hlinked.reached hk
  unfold Reached at hreached
  simp only [hfar] at hreached
  exact hreached.2

/-- The link of the last hop of a route goes nowhere yet. -/
theorem Linked.last (hlinked : Linked S b peer legs) {l : Leg n} (hl : legs.getLast? = some l)
    {f : Far n} (hfar : l.far? = some f) : (b f.node).link l.hop.link = some ⟨peer, none⟩ := by
  induction legs with
  | nil => cases hl
  | cons l' rest ih =>
      cases rest with
      | nil =>
        obtain rfl : l' = l := Option.some.inj hl
        have hreached := hlinked.1
        unfold Reached at hreached
        simp only [hfar] at hreached
        exact hreached.2
      | cons l'' rest => exact ih hlinked.2 hl

/-- A route goes on to a further hop once its last hop has been told so. -/
theorem Linked.append {l : Leg n} (hlinked : Linked S b peer legs)
    (hlast : ∀ l₀, legs.getLast? = some l₀ → l₀.far? ≠ none) (hl : Reached S b' peer l none)
    (htold : ∀ l₀ f, legs.getLast? = some l₀ → l₀.far? = some f →
      (b' f.node).link l₀.hop.link = some ⟨peer, some l.target⟩)
    (hsame : ∀ j x, (j, x) ∈ farEnds legs → legs.getLast?.bind Leg.farEnd? ≠ some (j, x) →
      (b' j).link x = (b j).link x) : Linked S b' peer (legs ++ [l]) := by
  induction legs with
  | nil => exact ⟨hl, trivial⟩
  | cons l' rest ih =>
      have hreached := hlinked.1
      unfold Reached at hreached
      cases hfar : l'.far? with
      | none =>
        simp only [hfar] at hreached
        obtain rfl : rest = [] := by simpa using hreached.1
        exact (hlast l' rfl hfar).elim
      | some f =>
        simp only [hfar] at hreached
        cases rest with
        | nil =>
          refine ⟨?_, hl, trivial⟩
          unfold Reached
          simp only [hfar]
          exact ⟨hreached.1, htold l' f rfl hfar⟩
        | cons l'' rest =>
          refine ⟨hlinked.1.congr fun j x hend => hsame j x ?_ ?_, ih hlinked.2 hlast htold ?_⟩
          · exact List.mem_filterMap.2 ⟨l', by simp, hend⟩
          · -- The last hop's link goes nowhere, and this one's goes on.
            intro hsame'
            obtain ⟨l₀, hl₀, hend'⟩ := Option.bind_eq_some_iff.1 hsame'
            obtain ⟨f', hf', hpair⟩ := Option.map_eq_some_iff.1 hend'
            have hnone := hlinked.last hl₀ hf'
            simp only [Leg.farEnd?, hfar, Option.map_some, Option.some.injEq] at hend
            obtain ⟨hnode, hlink⟩ := Prod.mk.inj (hpair.trans hend.symm)
            rw [hnode, hlink, hreached.2] at hnone
            cases hnone
          · intro j x hend
            obtain ⟨l₀, hl₀, hend⟩ := List.mem_filterMap.1 hend
            exact hsame j x (List.mem_filterMap.2 ⟨l₀, List.mem_cons_of_mem l' hl₀, hend⟩)

theorem Held.session_ne_none {l : Leg n} (hheld : Held S b i l) {j : Fin n} {x : UInt32}
    (hend : (j, x) ∈ l.ends i) : (b j).session x ≠ none := by
  obtain heq | hend := List.mem_cons.1 hend
  · obtain ⟨rfl, rfl⟩ := Prod.mk.inj heq
    rw [hheld.near.started]
    exact Option.some_ne_none _
  · cases hfar : l.far? with
    | none => simp [Leg.farEnd?, hfar] at hend
    | some f =>
      simp only [Leg.farEnd?, hfar, Option.map_some, Option.toList_some, List.mem_singleton,
        Prod.mk.injEq] at hend
      obtain ⟨rfl, rfl⟩ := hend
      rw [(hheld.far f hfar).accepted]
      exact Option.some_ne_none _

theorem Held.congr {l : Leg n} (hheld : Held S b i l)
    (hsession : ∀ j x, (j, x) ∈ l.ends i → (b' j).session x = (b j).session x) :
    Held S b' i l where
  near :=
    ⟨(hsession i _ (by simp [Leg.ends])).trans hheld.near.started, hheld.near.handshake_eq,
      hheld.near.usable⟩
  far f hfar := by
    have hf := hheld.far f hfar
    have hsame := hsession f.node l.hop.link (by simp [Leg.ends, Leg.farEnd?, hfar])
    exact ⟨hsame.trans hf.accepted, hf.handshake_eq, hf.peer_eq, hf.usable, hf.paired⟩

end Links

end Network

end OnionTunnel
