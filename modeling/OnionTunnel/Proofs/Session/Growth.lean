import OnionTunnel.Proofs.Session.Service

/-!
# Sessions that a registry gains

A message has a registry gain one session at most, and which messages may is known by their kind.
`Adds` compares what identifiers stand for before and after, whatever it is that they stand for.
-/

namespace OnionTunnel

open Function

/-! ### Sessions and tunnels that are new -/

/-- At most so many identifiers stand for something that did not before. -/
def Adds {β : Type} (k : Nat) (v v' : UInt32 → Option β) : Prop :=
  ∃ fresh : List UInt32, fresh.length ≤ k ∧ ∀ id, v id = none → v' id ≠ none → id ∈ fresh

section Adds
variable {β : Type} {j k : Nat} {v v' v'' : UInt32 → Option β}

theorem Adds.of_none (k : Nat) (h : ∀ id, v id = none → v' id = none) : Adds k v v' :=
  ⟨[], Nat.zero_le k, fun id hnone hsome => (hsome (h id hnone)).elim⟩

theorem Adds.refl (k : Nat) (v : UInt32 → Option β) : Adds k v v :=
  .of_none k fun _ h => h

theorem Adds.mono (h : Adds j v v') (hk : j ≤ k) : Adds k v v' := by
  obtain ⟨fresh, hlength, hfresh⟩ := h
  exact ⟨fresh, Nat.le_trans hlength hk, hfresh⟩

theorem Adds.trans (h : Adds j v v') (h' : Adds k v' v'') : Adds (j + k) v v'' := by
  obtain ⟨fresh, hlength, hfresh⟩ := h
  obtain ⟨fresh', hlength', hfresh'⟩ := h'
  refine ⟨fresh ++ fresh', ?_, fun id hnone hsome => ?_⟩
  · rw [List.length_append]
    omega
  · by_cases hid : v' id = none
    · exact List.mem_append_right _ (hfresh' id hid hsome)
    · exact List.mem_append_left _ (hfresh id hnone hid)

theorem Adds.update (v : UInt32 → Option β) (id : UInt32) (o : Option β) :
    Adds 1 v (update v id o) := by
  refine ⟨[id], Nat.le_refl 1, fun id' hnone hsome => ?_⟩
  by_contra hne
  rw [update_of_ne fun heq => hne (List.mem_singleton.2 heq)] at hsome
  exact hsome hnone

/-- Whatever is forgotten, nothing is new. -/
theorem Adds.erase (k : Nat) (v : UInt32 → Option β) (id : UInt32) :
    Adds k v (Function.update v id none) := by
  refine .of_none k fun id' hnone => ?_
  rw [update_apply, hnone, ite_self]

/-- What is in use later is in use already or new. -/
theorem Adds.covered (h : Adds k v v') {used : List UInt32}
    (hused : ∀ id, v id ≠ none → id ∈ used) :
    ∃ used' : List UInt32, used'.length ≤ used.length + k ∧ ∀ id, v' id ≠ none → id ∈ used' := by
  obtain ⟨fresh, hlength, hfresh⟩ := h
  refine ⟨used ++ fresh, ?_, fun id hsome => ?_⟩
  · rw [List.length_append]
    exact Nat.add_le_add_left hlength _
  · by_cases hid : v id = none
    · exact List.mem_append_right _ (hfresh id hid hsome)
    · exact List.mem_append_left _ (hused id hid)

end Adds

/-- How many sessions a message has any node gain at most, wherever it gets. -/
def Message.takes? : Message → Option Nat
  | .sessionStart _ | .incomingHandshake1 .. | .tunnelData .. => some 1
  | .tunnelBuild .. => none
  | _ => some 0

theorem Message.takes?_canonical (m : Message) : m.canonical.takes? = m.takes? := by
  cases m <;> rfl

namespace SessionRegistry

variable {R : Setting} {v : Holdings}

/-- What an action starts, its request does, whatever is replied. -/
theorem answers_adds {m : Message} {k : Nat} {now : Instant}
    (hm : Ensures R v (dispatch now m) fun _ v' => Adds k v v') :
    Answers R v now m fun _ v' => Adds k v v' :=
  answers_of_ensures hm (fun _ _ h => h) fun _ _ h => h

/-- Confirming a session starts none. -/
theorem confirm_adds (now : Instant) (id : UInt32) (block : Bytes) :
    Ensures R v (confirm now id block) fun _ v' => Adds 0 v v' := by
  refine (confirm_cases now id block).mono ?_
  rintro _ _ (⟨_, x, mac, -, hx, -, rfl⟩ | ⟨-, rfl⟩)
  · refine .of_none 0 fun id' hnone => ?_
    rw [update_of_ne, hnone]
    rintro rfl
    cases hx.symm.trans hnone
  · exact .refl 0 _

/-- Putting layers on or taking them off starts none. -/
theorem layered_adds {x : Action Bytes} (hx : Ensures R v x fun _ v' => v' = v)
    (reply : Bytes → Message) :
    Ensures R v (do return some (reply (← fitting (← x)))) fun _ v' => Adds 0 v v' := by
  refine hx.bind ?_ ?_
  · rintro blob _ rfl
    refine (fitting_ensures blob).bind ?_ ?_
    · rintro _ _ ⟨-, rfl⟩
      exact Ensures.pure (.refl 0 _)
    · rintro _ _ ⟨-, rfl⟩
      exact .refl 0 _
  · rintro _ _ rfl
    exact .refl 0 _

/-- A registry gains at most as many sessions as a message takes. -/
theorem handle_adds {m : Message} {k : Nat} (hm : m.takes? = some k) (now : Instant)
    (r : SessionRegistry) :
    Replies r.setting r now m fun _ v' => Adds k r.holdings v' := by
  cases m with
  | sessionStart hostkey =>
    obtain rfl := Option.some.inj hm
    refine (replies_sessionStart r hostkey).mono ?_
    rintro _ _ (⟨id, _, x, -, -, rfl, -⟩ | ⟨-, -, rfl⟩)
    · exact .update _ id _
    · exact .refl 1 _
  | incomingHandshake1 hostkey handshake =>
    obtain rfl := Option.some.inj hm
    refine (replies_incomingHandshake1 r hostkey handshake).mono ?_
    rintro _ _ (⟨id, _, y, -, -, rfl, -⟩ | ⟨-, rfl, -⟩)
    · exact .update _ id _
    · exact .refl 1 _
  | incomingHandshake2 id handshake =>
    obtain rfl := Option.some.inj hm
    refine answers_adds ?_ r rfl rfl
    rw [dispatch]
    cases Message.embedded2 handshake with
    | error e => exact Ensures.throw (.refl 0 _)
    | ok block =>
      exact (confirm_adds now id block).bind (fun _ _ h => Ensures.pure h) fun _ _ h => h
  | layerEncrypt request ids payload =>
    obtain rfl := Option.some.inj hm
    refine answers_adds (layered_adds ?_ _) r rfl rfl
    exact (layerEncrypt_ensures now ids payload).mono fun _ _ h => h.2
  | layerDecrypt request ids payload =>
    obtain rfl := Option.some.inj hm
    refine answers_adds (layered_adds ?_ _) r rfl rfl
    exact (layerDecrypt_ensures now ids payload).mono fun _ _ h => h.2
  | sessionClose id =>
    refine (answers_sessionClose id r rfl rfl).mono ?_
    rintro _ _ ⟨-, rfl⟩
    exact .erase k _ id
  | _ => exact ⟨rfl, .refl k _⟩

end SessionRegistry

end OnionTunnel
