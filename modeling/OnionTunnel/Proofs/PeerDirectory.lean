import OnionTunnel.PeerDirectory
import OnionTunnel.Proofs.Table

/-!
# What a peer directory is kept for

The sessions that a directory binds are those that somebody has a stake in: a stake is a session with
the peer at its other end. The address of a peer is kept for its stakes. Who gives a stake up has to
forget the session and then the peer; if only the session is forgotten and the stake was the last one
in the peer, the address is left behind.
-/

namespace OnionTunnel

namespace PeerDirectory

variable {d : PeerDirectory} {lost lost' : Identity → Prop} {stakes stakes' : List (UInt32 × Identity)}
  {s : UInt32} {p : Identity}

theorem isBound_iff : d.isBound p = true ↔ ∃ s, d.identityOf? s = some p := by
  simp only [isBound, Table.values, List.any_map, List.any_eq_true, Function.comp, decide_eq_true_eq]
  constructor
  · rintro ⟨⟨s, _⟩, hmem, rfl⟩
    exact ⟨s, (d.sessions.mem_entries_iff s _).1 hmem⟩
  · rintro ⟨s, hs⟩
    exact ⟨(s, p), (d.sessions.mem_entries_iff s p).2 hs, rfl⟩

theorem peerCount_eq_zero_iff : d.peerCount = 0 ↔ ∀ p, d.addressOf? p = none :=
  List.length_eq_zero_iff.trans Table.entries_eq_nil_iff

/-- The bound sessions are those with a stake, and each address belongs to a peer with a stake or to
one that is lost. -/
structure Warranted (lost : Identity → Prop) (stakes : List (UInt32 × Identity))
    (d : PeerDirectory) : Prop where
  bound : d.sessions.entries.Perm stakes
  known : ∀ p, d.addressOf? p ≠ none → lost p ∨ ∃ s, (s, p) ∈ stakes

namespace Warranted

theorem empty : Warranted lost [] .empty where
  bound := .nil
  known _ h := (h rfl).elim

theorem perm (h : Warranted lost stakes d) (hperm : stakes.Perm stakes') :
    Warranted lost stakes' d where
  bound := h.bound.trans hperm
  known p hp := (h.known p hp).imp_right fun ⟨s, hs⟩ => ⟨s, hperm.mem_iff.1 hs⟩

theorem mono (h : Warranted lost stakes d) (hlost : ∀ p, lost p → lost' p) :
    Warranted lost' stakes d where
  bound := h.bound
  known p hp := (h.known p hp).imp_left (hlost p)

theorem identityOf?_iff (h : Warranted lost stakes d) :
    d.identityOf? s = some p ↔ (s, p) ∈ stakes :=
  (d.sessions.mem_entries_iff s p).symm.trans h.bound.mem_iff

theorem unbound (h : Warranted lost stakes d) (hs : ∀ p, (s, p) ∉ stakes) :
    d.sessions.get? s = none := by
  apply Option.eq_none_iff_forall_not_mem.2
  intro p hp
  exact hs p (h.identityOf?_iff.1 hp)

/-- No two stakes are in one session. -/
theorem not_mem (h : Warranted lost ((s, p) :: stakes) d) (q : Identity) : (s, q) ∉ stakes := by
  intro hmem
  have hnodup := (h.bound.map (·.1)).nodup_iff.1 d.sessions.nodup_keys
  exact (List.nodup_cons.1 hnodup).1 (List.mem_map.2 ⟨(s, q), hmem, rfl⟩)

/-- A stake in a new session is taken. -/
theorem bindSession (h : Warranted lost stakes d) (hs : ∀ p, (s, p) ∉ stakes) (p : Identity) :
    Warranted lost ((s, p) :: stakes) (d.bindSession s p) where
  bound := by
    rw [PeerDirectory.bindSession, Table.entries_insert_of_absent (h.unbound hs)]
    exact h.bound.cons (s, p)
  known q hq := (h.known q hq).imp_right fun ⟨s', hs'⟩ => ⟨s', List.mem_cons_of_mem _ hs'⟩

/-- The address of a peer with a stake is remembered. -/
theorem rememberPeer (h : Warranted lost stakes d) (hmem : (s, p) ∈ stakes) (address : Address) :
    Warranted lost stakes (d.rememberPeer p address) where
  bound := h.bound
  known q hq := by
    by_cases hqp : q = p
    · exact .inr ⟨s, hqp ▸ hmem⟩
    · rw [addressOf?, PeerDirectory.rememberPeer, Table.get?_insert_of_ne _ _ hqp] at hq
      exact h.known q hq

/-- A session without a stake is forgotten. -/
theorem forgetSession_absent (h : Warranted lost stakes d) (hs : ∀ p, (s, p) ∉ stakes) :
    Warranted lost stakes (d.forgetSession s) where
  bound := by
    rw [PeerDirectory.forgetSession, Table.entries_erase_of_absent (h.unbound hs)]
    exact h.bound
  known := h.known

/-- A stake is given up. The peer is lost if its address is known and this was the last stake in
it. -/
theorem forgetSession (h : Warranted lost ((s, p) :: stakes) d) :
    Warranted (fun q => lost q ∨ q = p ∧ d.addressOf? p ≠ none ∧
      ∀ s', d.identityOf? s' = some p → s' = s) stakes (d.forgetSession s) where
  bound := by
    have hs : d.sessions.get? s = some p := h.identityOf?_iff.2 List.mem_cons_self
    exact ((Table.perm_cons_erase hs).symm.trans h.bound).cons_inv
  known q hq := by
    obtain hlost | ⟨s', hs'⟩ := h.known q hq
    · exact .inl (.inl hlost)
    · by_cases hrest : ∃ s', (s', q) ∈ stakes
      · exact .inr hrest
      · obtain heq | hs' := List.mem_cons.1 hs'
        · obtain ⟨-, rfl⟩ := Prod.mk.inj heq
          refine .inl (.inr ⟨rfl, hq, ?_⟩)
          intro s' hbound
          obtain heq | hmem := List.mem_cons.1 (h.identityOf?_iff.1 hbound)
          · exact (Prod.mk.inj heq).1
          · exact (hrest ⟨s', hmem⟩).elim
        · exact (hrest ⟨s', hs'⟩).elim

/-- A peer is not lost once it is forgotten: its address is gone, or it has a stake. -/
theorem forgetPeer (h : Warranted (fun q => lost q ∨ q = p) stakes d) :
    Warranted lost stakes (d.forgetPeer p) := by
  unfold PeerDirectory.forgetPeer
  split
  · next hbound =>
    obtain ⟨s, hs⟩ := isBound_iff.1 hbound
    refine ⟨h.bound, fun q hq => ?_⟩
    obtain (hlost | rfl) | hstake := h.known q hq
    · exact .inl hlost
    · exact .inr ⟨s, h.identityOf?_iff.1 hs⟩
    · exact .inr hstake
  · refine ⟨h.bound, fun q hq => ?_⟩
    have hqp : q ≠ p := by
      rintro rfl
      exact hq (Table.get?_erase_self _ q)
    rw [addressOf?, Table.get?_erase_of_ne _ hqp] at hq
    obtain (hlost | heq) | hstake := h.known q hq
    · exact .inl hlost
    · exact (hqp heq).elim
    · exact .inr hstake

/-- Without stakes and without peers that are lost, no addresses are kept. -/
theorem peerCount_eq_zero (h : Warranted lost [] d) (hlost : ∀ p, ¬ lost p) : d.peerCount = 0 := by
  apply peerCount_eq_zero_iff.2
  intro p
  by_contra hp
  obtain hp | ⟨s, hs⟩ := h.known p hp
  · exact hlost p hp
  · cases hs

end Warranted

end PeerDirectory

end OnionTunnel
