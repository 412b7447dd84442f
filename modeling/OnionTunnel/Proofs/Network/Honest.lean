import OnionTunnel.Proofs.Network.Services

/-!
# Networks of nodes are honest

In a network that is made of nodes each service answers at its own address, and nothing answers
elsewhere.
-/

namespace OnionTunnel.Network

variable {n : Nat} {nodes : Vector Node n} {place : Fin n → Service → Address}

/-- No two services have one address. -/
def Apart (place : Fin n → Service → Address) : Prop :=
  ∀ i s j s', place i s = place j s' → i = j ∧ s = s'

/-- Has the services of a node answer. -/
def openServices (place : Fin n → Service → Address) (net : Network n) (i : Fin n) : Network n :=
  ((net.register (place i .sessions) (.service ⟨i, .sessions⟩)).register (place i .clients)
    (.service ⟨i, .clients⟩)).register (place i .peers) (.service ⟨i, .peers⟩)

theorem ofNodes_eq (nodes : Vector Node n) (place : Fin n → Service → Address) :
    ofNodes nodes place = (List.finRange n).foldl (openServices place) ⟨nodes, .empty, .empty⟩ := rfl

theorem get?_openServices (h : Apart place) (net : Network n) (i : Fin n) (s : Service) :
    (openServices place net i).endpoints.get? (place i s) = some (.service ⟨i, s⟩) := by
  have hne : ∀ {s s'}, s ≠ s' → place i s ≠ place i s' := fun hs heq => hs (h i _ i _ heq).2
  cases s with
  | sessions =>
    simp [openServices, register, Table.get?_insert_of_ne _ _ (hne (show .sessions ≠ .peers by simp)),
      Table.get?_insert_of_ne _ _ (hne (show .sessions ≠ .clients by simp))]
  | clients =>
    simp [openServices, register, Table.get?_insert_of_ne _ _ (hne (show .clients ≠ .peers by simp))]
  | peers => simp [openServices, register]

theorem get?_openServices_of_ne (net : Network n) {i : Fin n} {a : Address}
    (h : ∀ s, a ≠ place i s) :
    (openServices place net i).endpoints.get? a = net.endpoints.get? a := by
  simp [openServices, register, Table.get?_insert_of_ne _ _ (h _)]

/-- What answers once the services of some nodes do. -/
theorem foldl_openServices (h : Apart place) (is : List (Fin n)) (net : Network n) :
    (∀ i ∈ is, ∀ s, (is.foldl (openServices place) net).endpoints.get? (place i s) =
      some (.service ⟨i, s⟩)) ∧
    (∀ a, (∀ i ∈ is, ∀ s, a ≠ place i s) →
      (is.foldl (openServices place) net).endpoints.get? a = net.endpoints.get? a) ∧
    (is.foldl (openServices place) net).nodes = net.nodes := by
  induction is generalizing net with
  | nil => exact ⟨by simp, fun _ _ => rfl, rfl⟩
  | cons j is ih =>
      obtain ⟨hplaced, hother, hnodes⟩ := ih (openServices place net j)
      refine ⟨?_, ?_, hnodes⟩
      · intro i hi s
        by_cases hlater : i ∈ is
        · exact hplaced i hlater s
        · obtain rfl := (List.mem_cons.1 hi).resolve_right hlater
          refine (hother _ fun k hk s' heq => ?_).trans (get?_openServices h net i s)
          exact hlater ((h i s k s' heq).1 ▸ hk)
      · intro a ha
        exact (hother a fun i hi => ha i (List.mem_cons_of_mem j hi)).trans
          (get?_openServices_of_ne net (ha j List.mem_cons_self))

/-- Each service answers at its own address. -/
theorem serviceAt?_ofNodes (h : Apart place) (nodes : Vector Node n) (i : Fin n) (s : Service) :
    (ofNodes nodes place).setting.serviceAt? (place i s) = some ⟨i, s⟩ := by
  have hplaced := (foldl_openServices h (List.finRange n) ⟨nodes, .empty, .empty⟩).1 i
    (List.mem_finRange i) s
  rw [← ofNodes_eq] at hplaced
  simp only [Setting.serviceAt?, setting, hplaced]

/-- Nothing answers where no service does. -/
theorem get?_ofNodes_of_ne (h : Apart place) (nodes : Vector Node n) {a : Address}
    (ha : ∀ i s, a ≠ place i s) : (ofNodes nodes place).endpoints.get? a = none := by
  rw [ofNodes_eq]
  exact (foldl_openServices h _ _).2.1 a fun i _ => ha i

theorem node_ofNodes (h : Apart place) (nodes : Vector Node n) (i : Fin n) :
    (ofNodes nodes place).node i = nodes.get i := by
  rw [ofNodes_eq, node, (foldl_openServices h _ _).2.2]
  rfl

/-- A network of nodes whose session requests go to their own session services is honest. -/
theorem honest_ofNodes (h : Apart place)
    (hown : ∀ i, (nodes.get i).sessionService = place i .sessions) :
    (ofNodes nodes place).setting.Honest where
  services a e he := by
    by_cases hplaced : ∃ i s, a = place i s
    · obtain ⟨i, s, rfl⟩ := hplaced
      have hservice := Setting.endpoint_of_serviceAt? (serviceAt?_ofNodes h nodes i s)
      exact ⟨_, Option.some.inj (he.symm.trans hservice)⟩
    · have hnone := get?_ofNodes_of_ne h nodes fun i s heq => hplaced ⟨i, s, heq⟩
      cases hnone.symm.trans he
  own i := by
    have hnode : ((ofNodes nodes place).setting.node i).sessionService = place i .sessions := by
      rw [← hown, ← node_ofNodes h]
      rfl
    rw [hnode]
    exact serviceAt?_ofNodes h nodes i .sessions

end OnionTunnel.Network
