import OnionTunnel.Proofs.Node.Building
import OnionTunnel.Proofs.Tunnel.Table

/-!
# Tunnels of an owner

A tunnel that is built stands on the books under a new identifier; one that cannot be built leaves
its identifier free. A tunnel that is torn down is gone with all its ends.
-/

namespace OnionTunnel

/-- A search finds an identifier that no tunnel has. -/
def TunnelTable.Spare (t : TunnelTable) : Prop :=
  ∃ id, (t.ids.allocate t.slots.contains).1 = .ok id

namespace Network

open Function SessionRegistry

variable {n : Nat} {S : Setting n} {V : Network n → Prop} {now : Instant} {depth : Nat}
  {i : Fin n} {b b' b₀ : Books n}
  {mode : TunnelMode} {legs : List (Leg n)}

/-- A change of the tunnels of a node, and what it hands on. -/
theorem leads_withSlots {α : Type} {f : Node → α × TunnelTable} {slot : UInt32 → Option Slot}
    {P : α → Prop} (h : ∀ node : Node, node.setting = S.node i → node.row = b i →
      P (f node).1 ∧ (f node).2.ids.draw = (S.node i).tunnelDraw ∧
        (f node).2.ids.attempts = (S.node i).tunnelAttempts ∧ (f node).2.slots.get? = slot) :
    Leads S V now depth i b
      (modifyGet fun node => ((f node).1, { node with tunnels := (f node).2 }))
      fun a b' => P a ∧ b' = b.withSlots i slot := by
  refine Leads.modifyGet fun node hset hrow => ?_
  obtain ⟨hP, hdraw, hattempts, hslots⟩ := h node hset hrow
  refine ⟨?_, hP, ?_⟩
  · rw [← hset] at hdraw hattempts ⊢
    simp only [Node.setting] at hdraw hattempts ⊢
    rw [hdraw, hattempts]
  · rw [Books.withSlots]
    refine congrArg (update b i) (Row.ext ?_ ?_ hslots ?_)
    all_goals rw [← hrow]; rfl

/-- A change of the tunnels of a node. -/
theorem does_withSlots {f : Node → TunnelTable} {slot : UInt32 → Option Slot}
    (h : ∀ node : Node, node.setting = S.node i → node.row = b i →
      (f node).ids.draw = (S.node i).tunnelDraw ∧ (f node).ids.attempts = (S.node i).tunnelAttempts ∧
      (f node).slots.get? = slot) :
    Does S V now depth i b (modify fun node => { node with tunnels := f node })
      fun res b' => res = .ok ⟨⟩ ∧ b' = b.withSlots i slot := by
  refine Does.lift ((leads_withSlots (f := fun node => (PUnit.unit, f node)) (P := fun _ => True)
    fun node hset hrow => ⟨trivial, h node hset hrow⟩).mono ?_)
  rintro _ _ ⟨-, rfl⟩
  exact ⟨rfl, rfl⟩

/-- In some network that is seen with these books, a node finds no identifier for a tunnel. -/
def Unnumbered (S : Setting n) (V : Network n → Prop) (b : Books n) (i : Fin n) : Prop :=
  ∃ net : Network n, net.setting = S ∧ net.books = b ∧ V net ∧ ¬ (net.node i).tunnels.Spare

/-- An identifier is taken that no tunnel has, or none is found. -/
theorem does_reserveTunnel :
    Does S V now depth i b Node.reserveTunnel fun res b' =>
      (∃ id, res = .ok id ∧ id ≠ 0 ∧ (b i).slot id = none ∧
        b' = b.setSlot i id (some .building)) ∨
      (∃ e, res = .error e) ∧ b' = b ∧ Unnumbered S V b i := by
  apply Does.get_of_seen
  rintro net rfl rfl hseen
  obtain ⟨ids, hdraw, hattempts, ⟨id, hid, hne, hfree⟩ | ⟨⟨e, he⟩, -⟩⟩ :=
    (net.node i).tunnels.ids.allocate_cases (net.node i).tunnels.slots.contains
  · have hreserve : (net.node i).tunnels.reserve =
        (.ok id, ⟨(net.node i).tunnels.slots.insert id .building, ids⟩) := by
      rw [TunnelTable.reserve, hid]
    simp only [hreserve]
    have htaken : Does net.setting V now depth i net.books
        (modify fun node => { node with
          tunnels := ⟨(net.node i).tunnels.slots.insert id .building, ids⟩ })
        fun res b' => res = .ok ⟨⟩ ∧ b' = net.books.setSlot i id (some .building) :=
      does_withSlots fun _ _ _ => ⟨hdraw, hattempts, Table.get?_insert _ _ _⟩
    refine htaken.bind ?_ ?_
    · rintro _ _ ⟨-, rfl⟩
      refine Does.pure (.inl ⟨id, rfl, hne, ?_, rfl⟩)
      rw [Table.contains, Option.isSome_eq_false_iff, Option.isNone_iff_eq_none] at hfree
      exact hfree
    · rintro _ _ ⟨⟨⟩, _⟩
  · have hreserve : (net.node i).tunnels.reserve =
        (.error e, ⟨(net.node i).tunnels.slots, ids⟩) := by
      rw [TunnelTable.reserve, he]
    simp only [hreserve]
    have hkept : Does net.setting V now depth i net.books
        (modify fun node => { node with tunnels := ⟨(net.node i).tunnels.slots, ids⟩ })
        fun res b' => res = .ok ⟨⟩ ∧ b' = net.books.withSlots i (net.books i).slot :=
      does_withSlots fun _ _ _ => ⟨hdraw, hattempts, rfl⟩
    have hspent : ¬ (net.node i).tunnels.Spare := by
      rintro ⟨id, hok⟩
      rw [he] at hok
      cases hok
    refine hkept.bind ?_ ?_
    · rintro _ _ ⟨-, rfl⟩
      exact Does.throw (.inr ⟨⟨_, rfl⟩, Books.withSlots_self _ i, net, rfl, rfl, hseen, hspent⟩)
    · rintro _ _ ⟨⟨⟩, _⟩

/-- A ready tunnel takes the place of a slot. -/
theorem does_complete (t : Tunnel) :
    Does S V now depth i b
      (modify fun node => { node with tunnels := node.tunnels.complete t })
      fun res b' => res = .ok ⟨⟩ ∧ b' = b.setSlot i t.id (some (.ready t)) := by
  refine does_withSlots fun node hset hrow => ⟨by rw [← hset]; rfl, by rw [← hset]; rfl, ?_⟩
  rw [TunnelTable.complete, Table.get?_insert, ← hrow]
  rfl

/-- A slot that is not ready is given back. -/
theorem does_abandon {id : UInt32} (h : (b i).slot id = some .building) :
    Does S V now depth i b
      (modify fun node => { node with tunnels := node.tunnels.abandon id })
      fun res b' => res = .ok ⟨⟩ ∧ b' = b.setSlot i id none := by
  refine does_withSlots fun node hset hrow => ?_
  have hget : node.tunnels.slots.get? id = some .building := by
    rw [← h, ← hrow]
    rfl
  simp only [TunnelTable.abandon, hget]
  refine ⟨by rw [← hset]; rfl, by rw [← hset]; rfl, ?_⟩
  rw [Table.get?_erase, ← hrow]
  rfl

/-- A ready tunnel is taken out. -/
theorem does_takeTunnel {id : UInt32} {t : Tunnel} (h : (b i).slot id = some (.ready t)) :
    Does S V now depth i b (Node.takeTunnel id) fun res b' =>
      res = .ok t ∧ b' = b.setSlot i id none := by
  refine Does.after (P := fun tunnel? b' => tunnel? = some t ∧ b' = b.setSlot i id none) ?_ ?_
  · refine leads_withSlots (f := fun node => node.tunnels.take id) fun node hset hrow => ?_
    have hget : node.tunnels.slots.get? id = some (.ready t) := by
      rw [← h, ← hrow]
      rfl
    rw [TunnelTable.take_of_ready hget]
    refine ⟨rfl, by rw [← hset]; rfl, by rw [← hset]; rfl, ?_⟩
    rw [Table.get?_erase, ← hrow]
    rfl
  · rintro _ _ ⟨rfl, rfl⟩
    exact Does.pure ⟨rfl, rfl⟩

/-- Where no ready tunnel is on the books, the owner's table has none. -/
theorem get?_of_absent {id : UInt32} (h : ∀ t, (b i).slot id ≠ some (.ready t)) {node : Node}
    (hrow : node.row = b i) : node.tunnels.get? id = none := by
  unfold TunnelTable.get?
  split
  · next t heq =>
    rw [← hrow] at h
    exact (h t heq).elim
  · rfl

theorem does_takeTunnel_absent {id : UInt32} (h : ∀ t, (b i).slot id ≠ some (.ready t)) :
    Does S V now depth i b (Node.takeTunnel id) fun res b' =>
      (∃ e, res = .error e) ∧ b' = b := by
  refine Does.after (P := fun tunnel? b' => tunnel? = none ∧ b' = b.withSlots i (b i).slot) ?_ ?_
  · refine leads_withSlots (f := fun node => node.tunnels.take id) fun node hset hrow => ?_
    rw [TunnelTable.take_of_absent (get?_of_absent h hrow)]
    exact ⟨rfl, by rw [← hset]; rfl, by rw [← hset]; rfl, by rw [← hrow]; rfl⟩
  · rintro _ _ ⟨rfl, rfl⟩
    exact Does.throw ⟨⟨_, rfl⟩, Books.withSlots_self b i⟩

/-! ### Building and tearing down -/

/-- A route stands wherever its own ends are the same. -/
theorem Route.congr (hroute : Route S b i legs)
    (hsame : ∀ j x, (j, x) ∈ legEnds i legs →
      (b' j).session x = (b j).session x ∧ (b' j).link x = (b j).link x) : Route S b' i legs where
  linked := hroute.linked.congr fun j x hend =>
    (hsame j x ((farEnds_sublist i legs).subset hend)).2
  held l hl := (hroute.held l hl).congr
    fun j x hend => (hsame j x (List.mem_flatMap.2 ⟨l, hl, hend⟩)).1
  first := hroute.first

/-- The hops of a tunnel are lined up wherever their own ends are the same. -/
theorem Lined.congr (h : Lined S b i mode legs)
    (hsame : ∀ j x, (j, x) ∈ legEnds i legs →
      (b' j).session x = (b j).session x ∧ (b' j).link x = (b j).link x) :
    Lined S b' i mode legs where
  routes r hr := (h.routes r hr).congr fun j x hend => by
    obtain ⟨l, hl, hend⟩ := List.mem_flatMap.1 hend
    exact hsame j x (List.mem_flatMap.2 ⟨l, mem_of_mem_routes hr hl, hend⟩)
  nodup := h.nodup
  dialled_eq := h.dialled_eq
  short := h.short

/-- The hops of a tunnel stand wherever their own ends are the same. -/
theorem Stands.congr (h : Stands S b i mode legs)
    (hsame : ∀ j x, (j, x) ∈ legEnds i legs →
      (b' j).session x = (b j).session x ∧ (b' j).link x = (b j).link x) :
    Stands S b' i mode legs where
  toLined := h.toLined.congr hsame
  unlinked l hl := by
    have hend : (i, l.hop.session) ∈ legEnds i legs :=
      List.mem_flatMap.2 ⟨l, hl, by simp [Leg.ends]⟩
    rw [(hsame i _ hend).2]
    exact h.unlinked l hl

/-- The strands of a tunnel hang wherever what it takes up is the same. -/
theorem Hung.congr {strands : List (List (End n))} (h : Hung S b i mode legs strands)
    (hsame : ∀ j x, (j, x) ∈ strands.flatten ++ nearEnds i legs →
      (b' j).session x = (b j).session x ∧ (b' j).link x = (b j).link x) :
    Hung S b' i mode legs strands := by
  have hnear : ∀ l ∈ legs, (b' i).session l.hop.session = (b i).session l.hop.session ∧
      (b' i).link l.hop.session = (b i).link l.hop.session := fun l hl =>
    hsame i _ (List.mem_append_right _ (List.mem_map_of_mem hl))
  constructor
  case near =>
    intro l hl
    exact ⟨(hnear l hl).1.trans (h.near l hl).started, (h.near l hl).handshake_eq,
      (h.near l hl).usable⟩
  case unlinked => exact fun l hl => (hnear l hl).2.trans (h.unlinked l hl)
  case hangs => exact h.hangs.congr fun j x hend => hsame j x (List.mem_append_left _ hend)
  case nodup => exact h.nodup

/-- What a tunnel takes up is on the books. -/
theorem Hung.session_ne_none {strands : List (List (End n))} (h : Hung S b i mode legs strands)
    {j : Fin n} {x : UInt32} (hend : (j, x) ∈ strands.flatten ++ nearEnds i legs) :
    (b j).session x ≠ none := by
  obtain hend | hend := List.mem_append.1 hend
  · exact (h.hangs.ne_none hend).1
  · obtain ⟨l, hl, heq⟩ := List.mem_map.1 hend
    obtain ⟨rfl, rfl⟩ := Prod.mk.inj heq
    simp [(h.near l hl).started]

theorem without_setSlot (b : Books n) (i : Fin n) (id : UInt32) (s? : Option Slot)
    (ends : List (End n)) :
    (b.setSlot i id s?).without ends = (b.without ends).setSlot i id s? :=
  Books.ext (by simp) (by simp) (by simp) (by simp)

/-- Open hops are built on any tunnels. -/
theorem Built.setSlot (hbuilt : Built S b₀ i mode legs b) (id : UInt32) (s? : Option Slot) :
    Built S (b₀.setSlot i id s?) i mode legs (b.setSlot i id s?) where
  toStands := hbuilt.toStands.congr (by simp)
  linksHeld := by
    intro j x hlink
    simpa using hbuilt.linksHeld j x (by simpa using hlink)
  leaks := by
    rw [without_setSlot]
    refine ⟨?_, ?_, ?_, ?_⟩
    · intro j x hsome
      simpa using hbuilt.leaks.session j x (by simpa using hsome)
    · intro j x
      simpa using hbuilt.leaks.link j x
    · intro j
      simp only [Books.setSlot_apply, hbuilt.leaks.slot j]
    · intro j
      simpa using hbuilt.leaks.handed j
  tidy hproper := by rw [without_setSlot, hbuilt.tidy hproper]
  loose l hl hfar := by simpa using hbuilt.loose l hl hfar

theorem Built.nil (hlinks : LinksHeld b) : Built S b i mode [] b where
  toLined := .nil S b i mode
  unlinked := by simp
  linksHeld := hlinks
  leaks := by
    rw [show legEnds i ([] : List (Leg n)) = [] from rfl, Books.without_nil]
    exact Leaks.refl b
  tidy _ := Books.without_nil b
  loose := by simp

/-- What leaks past a slot that is given back leaks past the books before. -/
theorem Leaks.setSlot_none {id : UInt32} {s? : Option Slot} (h : Leaks (b.setSlot i id s?) b')
    (hfree : (b i).slot id = none) : Leaks b (b'.setSlot i id none) where
  session j x hsome := by simpa using h.session j x (by simpa using hsome)
  link j x := by simpa using h.link j x
  slot j := by
    have hback := congrFun (Books.setSlot_setSlot_none hfree s?) j
    rw [← congrArg Row.slot hback]
    simp only [Books.setSlot_apply, h.slot j]
  handed j := by simpa using h.handed j

/-- A tunnel is built, or its identifier is given back and the open hops are released. -/
theorem does_build (hS : S.Honest) (hinverts : (S.node i).registry.keypair.Inverts)
    (hdepth : 260 ≤ depth) (hlinks : LinksHeld b) {hops : List Hop}
    (htrusted : AllTrusted S V now i mode 0 hops) :
    Does S V now depth i b (Node.build mode hops) fun res b' =>
      (∃ id legs hostkey, res = .ok id ∧ (b i).slot id = none ∧ legs ≠ [] ∧
        legs.map (·.hop.address) = hops.map (·.address) ∧
        Built S (b.setSlot i id (some (.ready ⟨id, mode, legs.map (·.hop), hostkey⟩))) i mode legs
          b') ∨
      (∃ e, res = .error e) ∧ Leaks b b' ∧ (Clear S mode 0 hops → b' = b) ∧
        (hops = [] ∨ Unnumbered S V b i ∨
          ∃ id, (b i).slot id = none ∧
            Stopped S V (b.setSlot i id (some .building)) i mode hops) := by
  unfold Node.build
  cases hdestination : hops.getLast? with
  | none =>
    have hnil := List.getLast?_eq_none_iff.1 hdestination
    exact Does.throw (.inr ⟨⟨_, rfl⟩, Leaks.refl b, fun _ => rfl, .inl hnil⟩)
  | some destination =>
    refine does_reserveTunnel.bind ?_ ?_
    · rintro id _ (⟨_, ⟨⟩, -, hfree, rfl⟩ | ⟨⟨_, ⟨⟩⟩, _⟩)
      have hlinks' : LinksHeld (b.setSlot i id (some .building)) := by
        intro j x hlink
        simpa using hlinks j x (by simpa using hlink)
      have hnil : Built S _ i mode [] _ := Built.nil hlinks'
      apply Does.attempt (does_openHops hS hinverts hdepth hnil htrusted)
      rintro _ b' (⟨legs, rfl, hbuilt, heq⟩ | ⟨⟨e, rfl⟩, hleaks, htidy, hstopped⟩)
      · refine Does.bind (does_complete _) ?_ ?_
        · rintro _ _ ⟨-, rfl⟩
          refine Does.pure (.inl ⟨id, legs, destination.hostkey, rfl, hfree, ?_, by simpa using heq,
            ?_⟩)
          · rintro rfl
            have hnil : hops = [] := by simpa using heq.symm
            rw [hnil] at hdestination
            cases hdestination
          · simpa only [Books.setSlot_setSlot] using
              hbuilt.setSlot id (some (.ready ⟨id, mode, legs.map (·.hop), destination.hostkey⟩))
        · rintro _ _ ⟨⟨⟩, _⟩
      · have hbuilding : (b' i).slot id = some .building := by simp [hleaks.slot i]
        refine Does.bind (does_abandon hbuilding) ?_ ?_
        · rintro _ _ ⟨-, rfl⟩
          refine Does.throw (.inr ⟨⟨e, rfl⟩, hleaks.setSlot_none hfree, fun hclear => ?_,
            .inr (.inr ⟨id, hfree, hstopped⟩)⟩)
          rw [htidy hclear, Books.setSlot_setSlot_none hfree]
        · rintro _ _ ⟨⟨⟩, _⟩
    · rintro e _ (⟨_, ⟨⟩, _⟩ | ⟨-, rfl, hex⟩)
      exact .inr ⟨⟨e, rfl⟩, Leaks.refl _, fun _ => rfl, .inr (.inl hex)⟩

theorem does_tunnel {id : UInt32} {t : Tunnel} (h : (b i).slot id = some (.ready t)) :
    Does S V now depth i b (Node.tunnel id) fun res b' => res = .ok t ∧ b' = b := by
  refine Does.get fun node _ hrow => ?_
  have hget : node.tunnels.get? id = some t := by
    have hslot : node.tunnels.slots.get? id = some (.ready t) := by
      rw [← h, ← hrow]
      rfl
    simp only [TunnelTable.get?, hslot]
  simp only [hget]
  exact Does.pure ⟨rfl, rfl⟩

theorem does_tunnel_absent {id : UInt32} (h : ∀ t, (b i).slot id ≠ some (.ready t)) :
    Does S V now depth i b (Node.tunnel id) fun res b' => (∃ e, res = .error e) ∧ b' = b := by
  refine Does.get fun node _ hrow => ?_
  simp only [get?_of_absent h hrow]
  exact Does.throw ⟨⟨_, rfl⟩, rfl⟩

/-- A tunnel that is torn down is gone with all its strands. -/
theorem does_teardown (hS : S.Own) {id : UInt32} {t : Tunnel} {strands : List (List (End n))}
    (hready : (b i).slot id = some (.ready t)) (hmode : t.mode = mode)
    (hhops : t.hops = legs.map (·.hop)) (hhung : Hung S b i mode legs strands)
    (hdepth : ∀ ends ∈ strands, ends.length < depth + 1) :
    Does S V now (depth + 1) i b (Node.teardown id) fun res b' => res = .ok ⟨⟩ ∧
      b' = (b.setSlot i id none).without (strands.flatten ++ nearEnds i legs) := by
  refine (does_takeTunnel hready).bind ?_ ?_
  · rintro _ b₁ ⟨⟨⟩, heq⟩
    rw [heq]
    have hhung' : Hung S (b.setSlot i id none) i mode legs strands := hhung.congr (by simp)
    rw [hmode, hhops]
    refine Does.lift ((hhung'.leads_release hS hdepth).mono ?_)
    rintro _ _ rfl
    exact ⟨rfl, rfl⟩
  · rintro _ _ ⟨⟨⟩, _⟩

theorem does_teardown_absent {id : UInt32} (h : ∀ t, (b i).slot id ≠ some (.ready t)) :
    Does S V now depth i b (Node.teardown id) fun res b' => (∃ e, res = .error e) ∧ b' = b := by
  refine (does_takeTunnel_absent h).bind ?_ ?_
  · rintro _ _ ⟨⟨_, ⟨⟩⟩, _⟩
  · rintro e _ ⟨-, rfl⟩
    exact ⟨⟨e, rfl⟩, rfl⟩

end Network

end OnionTunnel
