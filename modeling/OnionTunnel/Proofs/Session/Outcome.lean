import OnionTunnel.Proofs.Table
import OnionTunnel.Session.Registry

/-!
# What a registry action comes to

A registry has a setting, which no action changes, and holdings, its sessions by identifier without
the moment of their last activity. `Ensures` speaks of an action by these alone: whatever else the
registry remembers, the action ends with a result and holdings of which a statement is true.
-/

namespace OnionTunnel

/-- A session without the moment of its last activity. -/
def Session.untimed (s : Session) : Session := { s with lastActivity := 0 }

namespace SessionRegistry

open Function

/-- What no action of a registry changes. -/
structure Setting where
  keypair : Keypair
  byte : Nat → UInt8
  draw : Nat → UInt32
  attempts : Nat

/-- The setting of a registry. -/
def setting (r : SessionRegistry) : Setting :=
  ⟨r.keypair, r.tape.byte, r.ids.draw, r.ids.attempts⟩

/-- Sessions by identifier. -/
abbrev Holdings := UInt32 → Option Session

/-- The sessions of a registry, without the moments of their last activity. -/
def holdings (r : SessionRegistry) : Holdings := fun id => (r.sessions.get? id).map Session.untimed

theorem contains_eq (r : SessionRegistry) (id : UInt32) :
    r.sessions.contains id = (r.holdings id).isSome := by
  simp [Table.contains, holdings]

theorem holdings_insert (r : SessionRegistry) (id : UInt32) (s : Session) :
    holdings { r with sessions := r.sessions.insert id s } =
      update r.holdings id (some s.untimed) := by
  funext id'
  simp only [holdings, Table.get?_insert, update_apply]
  split <;> rfl

theorem holdings_erase (r : SessionRegistry) (id : UInt32) :
    holdings { r with sessions := r.sessions.erase id } = update r.holdings id none := by
  funext id'
  simp only [holdings, Table.get?_erase, update_apply]
  split <;> rfl

/-- What an action ends with, and the registry then. -/
def Action.result {α : Type} (x : Action α) (r : SessionRegistry) :
    Except SessionError α × SessionRegistry :=
  x.run r

@[simp] theorem result_pure {α : Type} (a : α) (r : SessionRegistry) :
    (pure a : Action α).result r = (.ok a, r) := rfl

@[simp] theorem result_get (r : SessionRegistry) :
    (get : Action SessionRegistry).result r = (.ok r, r) := rfl

@[simp] theorem result_modify (f : SessionRegistry → SessionRegistry) (r : SessionRegistry) :
    (modify f : Action PUnit).result r = (.ok ⟨⟩, f r) := rfl

@[simp] theorem result_modifyGet {α : Type} (f : SessionRegistry → α × SessionRegistry)
    (r : SessionRegistry) :
    (modifyGet f : Action α).result r = (.ok (f r).1, (f r).2) := rfl

theorem result_bind {α β : Type} (x : Action α) (f : α → Action β) (r : SessionRegistry) :
    (x >>= f).result r =
      match x.result r with
      | (.ok a, r') => (f a).result r'
      | (.error e, r') => (.error e, r') := by
  unfold Action.result ExceptT.run
  simp only [Bind.bind, ExceptT.bind, ExceptT.mk, StateT.bind, ExceptT.bindCont]
  cases x r with
  | mk a r' => cases a <;> rfl

theorem result_tryCatch {α : Type} (x : Action α) (handler : SessionError → Action α)
    (r : SessionRegistry) :
    (tryCatch x handler : Action α).result r =
      match x.result r with
      | (.ok a, r') => (.ok a, r')
      | (.error e, r') => (handler e).result r' := by
  unfold Action.result ExceptT.run
  simp only [tryCatch, tryCatchThe, MonadExceptOf.tryCatch, ExceptT.tryCatch, ExceptT.mk, bind,
    StateT.bind]
  cases x r with
  | mk a r' => cases a <;> rfl

/-- From a registry, an action gets to a setting, and ends with a result and holdings of which a
statement is true. -/
def Gives {α : Type} (R : Setting) (r : SessionRegistry) (x : Action α)
    (Q : Except SessionError α → Holdings → Prop) : Prop :=
  (x.result r).2.setting = R ∧ Q (x.result r).1 (x.result r).2.holdings

/-- In every registry of a setting and with holdings, an action keeps the setting and ends with a
result and holdings of which a statement is true. -/
def Ensures {α : Type} (R : Setting) (v : Holdings) (x : Action α)
    (Q : Except SessionError α → Holdings → Prop) : Prop :=
  ∀ r : SessionRegistry, r.setting = R → r.holdings = v → Gives R r x Q

section Rules
variable {α β : Type} {R : Setting} {v : Holdings}

theorem Ensures.mono {x : Action α} {P Q : Except SessionError α → Holdings → Prop}
    (hx : Ensures R v x P) (h : ∀ a v', P a v' → Q a v') : Ensures R v x Q := by
  intro r hR hv
  obtain ⟨hset, hP⟩ := hx r hR hv
  exact ⟨hset, h _ _ hP⟩

theorem Ensures.pure {a : α} {Q : Except SessionError α → Holdings → Prop} (h : Q (.ok a) v) :
    Ensures R v (Pure.pure a) Q := by
  rintro r hR rfl
  exact ⟨hR, h⟩

theorem Ensures.throw {e : SessionError} {Q : Except SessionError α → Holdings → Prop}
    (h : Q (.error e) v) : Ensures R v (throw e : Action α) Q := by
  rintro r hR rfl
  exact ⟨hR, h⟩

/-- One action after another; the second is not reached if the first fails. -/
theorem Gives.bind {r : SessionRegistry} {x : Action α} {f : α → Action β}
    {P : Except SessionError α → Holdings → Prop} {Q : Except SessionError β → Holdings → Prop}
    (hx : Gives R r x P) (hok : ∀ a v', P (.ok a) v' → Ensures R v' (f a) Q)
    (herror : ∀ e v', P (.error e) v' → Q (.error e) v') : Gives R r (x >>= f) Q := by
  obtain ⟨hset, hP⟩ := hx
  unfold Gives
  rw [result_bind]
  split
  · next a r' heq =>
    rw [heq] at hset hP
    exact hok a _ hP r' hset rfl
  · next e r' heq =>
    rw [heq] at hset hP
    exact ⟨hset, herror e _ hP⟩

theorem Ensures.bind {x : Action α} {f : α → Action β}
    {P : Except SessionError α → Holdings → Prop} {Q : Except SessionError β → Holdings → Prop}
    (hx : Ensures R v x P) (hok : ∀ a v', P (.ok a) v' → Ensures R v' (f a) Q)
    (herror : ∀ e v', P (.error e) v' → Q (.error e) v') : Ensures R v (x >>= f) Q :=
  fun r hR hv => (hx r hR hv).bind hok herror

/-- An action that does not fail, and one after it. -/
theorem Ensures.andThen {x : Action α} {f : α → Action β} {P : α → Holdings → Prop}
    {Q : Except SessionError β → Holdings → Prop}
    (hx : Ensures R v x fun res v' => ∃ a, res = .ok a ∧ P a v')
    (h : ∀ a v', P a v' → Ensures R v' (f a) Q) : Ensures R v (x >>= f) Q := by
  refine hx.bind ?_ ?_
  · rintro a v' ⟨a', ha, hP⟩
    obtain rfl := Except.ok.inj ha
    exact h a v' hP
  · rintro e v' ⟨a, ha, -⟩
    cases ha

/-- An action whose failure is handled. -/
theorem Ensures.tryCatch {x : Action α} {handler : SessionError → Action α}
    {P Q : Except SessionError α → Holdings → Prop} (hx : Ensures R v x P)
    (hok : ∀ a v', P (.ok a) v' → Q (.ok a) v')
    (herror : ∀ e v', P (.error e) v' → Ensures R v' (handler e) Q) :
    Ensures R v (tryCatch x handler : Action α) Q := by
  intro r hR hv
  obtain ⟨hset, hP⟩ := hx r hR hv
  unfold Gives
  rw [result_tryCatch]
  split
  · next a r' heq =>
    rw [heq] at hset hP
    exact ⟨hset, hok a _ hP⟩
  · next e r' heq =>
    rw [heq] at hset hP
    exact herror e _ hP r' hset rfl

theorem Ensures.modify {f : SessionRegistry → SessionRegistry}
    {Q : Except SessionError PUnit → Holdings → Prop}
    (h : ∀ r : SessionRegistry, r.setting = R → r.holdings = v →
      (f r).setting = R ∧ Q (.ok ⟨⟩) (f r).holdings) :
    Ensures R v (modify f : Action PUnit) Q := h

theorem Ensures.modifyGet {f : SessionRegistry → α × SessionRegistry}
    {Q : Except SessionError α → Holdings → Prop}
    (h : ∀ r : SessionRegistry, r.setting = R → r.holdings = v →
      (f r).2.setting = R ∧ Q (.ok (f r).1) (f r).2.holdings) :
    Ensures R v (modifyGet f : Action α) Q := h

end Rules

/-- Whatever an action ends with, if it does not fail, a statement is true of it. -/
def Action.Grants {α : Type} (x : Action α) (P : α → Prop) : Prop :=
  ∀ r a, (x.result r).1 = .ok a → P a

section Grants
variable {α β : Type}

theorem Action.Grants.pure {a : α} {P : α → Prop} (h : P a) : Grants (Pure.pure a) P := by
  intro r b hb
  obtain rfl := Except.ok.inj hb
  exact h

theorem Action.Grants.any (x : Action α) : Grants x fun _ => True := fun _ _ _ => trivial

theorem Action.Grants.bind {x : Action α} {f : α → Action β} {P : α → Prop} {Q : β → Prop}
    (hx : Grants x P) (hf : ∀ a, P a → Grants (f a) Q) : Grants (x >>= f) Q := by
  intro r b hb
  rw [result_bind] at hb
  split at hb
  · next a r' heq => exact hf a (hx r a (by rw [heq])) r' b hb
  · cases hb

theorem Action.Grants.throw (e : SessionError) (P : α → Prop) :
    Grants (MonadExcept.throw e : Action α) P := by
  intro r b hb
  cases hb

end Grants

end SessionRegistry

end OnionTunnel
