import OnionTunnel.Proofs.Session.Registry
import OnionTunnel.Session.Layers

/-!
# Looking up the keys of layers

Looking the keys of a list of sessions up comes to the first reason why one of them cannot carry
layers, or to the layers of all. Either way the sessions before that one count as active from then
on, and nothing else in the registry changes.
-/

namespace OnionTunnel.SessionRegistry

open Function

/-- The layer of a session, or why it can carry none. -/
def pick (macKey? : Session → Option Bytes) (v : Holdings) (id : UInt32) :
    Except SessionError Layer :=
  match v id with
  | none => .error (.notFound id)
  | some x =>
    match if x.isEstablished then macKey? x else none with
    | none => .error (.notEstablished id)
    | some macKey => .ok ⟨id, x.sharedKey, macKey⟩

theorem pick_eq_ok {macKey? : Session → Option Bytes} {v : Holdings} {id : UInt32} {l : Layer} :
    pick macKey? v id = .ok l ↔ ∃ x macKey, v id = some x ∧ x.handshake.state = .established ∧
      macKey? x = some macKey ∧ l = ⟨id, x.sharedKey, macKey⟩ := by
  constructor
  · intro h
    unfold pick at h
    split at h
    · cases h
    · next x hx =>
      split at h
      · cases h
      · next macKey hmac =>
        obtain ⟨hestablished, hmac⟩ := Option.ite_none_right_eq_some.1 hmac
        exact ⟨x, macKey, hx, of_decide_eq_true hestablished, hmac, (Except.ok.inj h).symm⟩
  · rintro ⟨x, macKey, hx, hstate, hmac, rfl⟩
    have hestablished : x.isEstablished = true := decide_eq_true hstate
    simp [pick, hx, hestablished, hmac]

/-- The registry in which a session counts as active at a moment. -/
def touch (now : Instant) (r : SessionRegistry) (id : UInt32) : SessionRegistry :=
  match r.sessions.get? id with
  | none => r
  | some s => { r with sessions := r.sessions.insert id { s with lastActivity := now } }

/-- The registry in which each of some sessions counts as active at a moment. -/
def touchAll (now : Instant) (ids : List UInt32) (r : SessionRegistry) : SessionRegistry :=
  ids.foldl (touch now) r

/-! ### Activity -/

section Activity
variable {now : Instant} {r : SessionRegistry}

@[simp] theorem touchAll_nil : touchAll now [] r = r := rfl

@[simp] theorem touchAll_cons {id : UInt32} {ids : List UInt32} :
    touchAll now (id :: ids) r = touchAll now ids (touch now r id) := rfl

theorem get?_touch (id id' : UInt32) :
    (touch now r id).sessions.get? id' =
      (r.sessions.get? id').map fun s => if id' = id then { s with lastActivity := now } else s := by
  unfold touch
  cases hid : r.sessions.get? id with
  | none =>
    by_cases heq : id' = id
    · rw [heq, hid]
      rfl
    · simp [heq]
  | some s =>
    simp only [Table.get?_insert]
    by_cases heq : id' = id
    · rw [heq, update_self, hid]
      simp
    · simp [heq]

/-- The sessions listed are those whose last activity is at the moment now. -/
theorem get?_touchAll (ids : List UInt32) (id : UInt32) :
    (touchAll now ids r).sessions.get? id =
      (r.sessions.get? id).map fun s => if id ∈ ids then { s with lastActivity := now } else s := by
  induction ids generalizing r with
  | nil => simp
  | cons a ids ih =>
    rw [touchAll_cons, ih, get?_touch, Option.map_map]
    congr 1
    funext s
    by_cases ha : id = a <;> by_cases hids : id ∈ ids <;> simp [ha, hids]

/-- Activity is nothing that the rest of a registry shows. -/
theorem touchAll_eq (ids : List UInt32) :
    touchAll now ids r = { r with sessions := (touchAll now ids r).sessions } := by
  induction ids generalizing r with
  | nil => rfl
  | cons id ids ih =>
    rw [touchAll_cons, ih]
    unfold touch
    cases r.sessions.get? id <;> rfl

theorem setting_touchAll (ids : List UInt32) : (touchAll now ids r).setting = r.setting := by
  rw [touchAll_eq]
  rfl

theorem holdings_touchAll (ids : List UInt32) : (touchAll now ids r).holdings = r.holdings := by
  funext id
  simp only [holdings, get?_touchAll, Option.map_map]
  congr 1
  funext s
  by_cases hid : id ∈ ids <;> simp [hid, Session.untimed]

end Activity

/-! ### Look-ups -/

section Lookups
variable {macKey? : Session → Option Bytes} {now : Instant}

theorem lookup_result (id : UInt32) (r : SessionRegistry) :
    (lookup id).result r = ((r.sessions.get? id).elim (.error (.notFound id)) .ok, r) := by
  simp only [lookup, result_bind, result_get]
  cases r.sessions.get? id <;> rfl

/-- Looking one key up touches its session, if that can carry a layer. -/
theorem layer_result (huntimed : ∀ s : Session, macKey? s.untimed = macKey? s) (id : UInt32)
    (r : SessionRegistry) :
    (layer now macKey? id).result r = (pick macKey? r.holdings id,
      if (pick macKey? r.holdings id).isOk then touch now r id else r) := by
  rw [layer, result_bind, lookup_result]
  cases hid : r.sessions.get? id with
  | none =>
    have hpick : pick macKey? r.holdings id = .error (.notFound id) := by
      simp [pick, holdings, hid]
    rw [hpick]
    rfl
  | some s =>
    have hpick : pick macKey? r.holdings id =
        match if s.isEstablished then macKey? s else none with
        | none => .error (.notEstablished id)
        | some macKey => .ok ⟨id, s.sharedKey, macKey⟩ := by
      simp only [pick, holdings, hid, Option.map_some, huntimed]
      rfl
    rw [hpick, touch, hid]
    by_cases hestablished : s.isEstablished = true
    · simp only [hestablished, if_true, Option.elim_some]
      cases macKey? s <;> rfl
    · simp only [hestablished, Option.elim_some]
      rfl

/-- Looking keys up touches the sessions before the first that can carry no layer. -/
theorem layers_result (huntimed : ∀ s : Session, macKey? s.untimed = macKey? s)
    (ids : List UInt32) (r : SessionRegistry) :
    (ids.mapM (layer now macKey?)).result r = (ids.mapM (pick macKey? r.holdings),
      touchAll now (ids.takeWhile fun id => (pick macKey? r.holdings id).isOk) r) := by
  induction ids generalizing r with
  | nil => rfl
  | cons id ids ih =>
    rw [List.mapM_cons, List.mapM_cons, result_bind, layer_result huntimed, List.takeWhile_cons]
    cases hid : pick macKey? r.holdings id with
    | error e => rfl
    | ok l =>
      have hsame : (touch now r id).holdings = r.holdings := holdings_touchAll [id]
      have hrest := ih (touch now r id)
      rw [hsame] at hrest
      show (_ >>= _ : Action _).result (touch now r id) = _
      rw [result_bind, hrest]
      cases ids.mapM (pick macKey? r.holdings) <;> rfl

/-- Decrypting is looking up and then peeling, and only the look-ups show in the registry. -/
theorem layerDecrypt_result (now : Instant) (ids : List UInt32) (blob : Bytes)
    (r : SessionRegistry) :
    (layerDecrypt now ids blob).result r =
      (ids.mapM (pick (·.remoteMac?) r.holdings) >>= fun ls => peelAll 0 ls.reverse blob,
        touchAll now (ids.takeWhile fun id => (pick (·.remoteMac?) r.holdings id).isOk) r) := by
  rw [layerDecrypt, result_bind, layers_result fun _ => rfl]
  cases ids.mapM (pick (·.remoteMac?) r.holdings) with
  | error e => rfl
  | ok ls =>
    have hpeel : (Except.ok ls >>= fun ls => peelAll 0 ls.reverse blob) =
        peelAll 0 ls.reverse blob := rfl
    rw [hpeel]
    dsimp only
    cases peelAll 0 ls.reverse blob <;> rfl

end Lookups

/-! ### Lists of results -/

section Lists
variable {ε α β : Type} {f : α → Except ε β}

theorem mapM_of_ok {as : List α} {bs : List β} (h : as.map f = bs.map .ok) :
    as.mapM f = .ok bs := by
  induction as generalizing bs with
  | nil =>
    obtain rfl : bs = [] := by simpa using h.symm
    rfl
  | cons a as ih =>
    obtain _ | ⟨b, bs⟩ := bs
    · cases h
    · obtain ⟨ha, has⟩ := List.cons.inj h
      rw [List.mapM_cons, ha, ih has]
      rfl

/-- The first failure is the one that counts. -/
theorem mapM_of_error {front back : List α} {a : α} {e : ε} (hfront : ∀ x ∈ front, ∃ b, f x = .ok b)
    (h : f a = .error e) : (front ++ a :: back).mapM f = .error e := by
  induction front with
  | nil =>
    rw [List.nil_append, List.mapM_cons, h]
    rfl
  | cons x front ih =>
    obtain ⟨⟨b, hx⟩, hrest⟩ := List.forall_mem_cons.1 hfront
    rw [List.cons_append, List.mapM_cons, hx, ih hrest]
    rfl

/-- Either all results are good or one of them is the first that is not. -/
theorem forall_ok_or_first_error (f : α → Except ε β) (as : List α) :
    (∃ bs : List β, as.map f = bs.map .ok) ∨ ∃ front a back e, as = front ++ a :: back ∧
      (∀ x ∈ front, ∃ b, f x = .ok b) ∧ f a = .error e := by
  induction as with
  | nil => exact .inl ⟨[], rfl⟩
  | cons a as ih =>
    cases ha : f a with
    | error e => exact .inr ⟨[], a, as, e, rfl, by simp, ha⟩
    | ok b =>
      obtain ⟨bs, hbs⟩ | ⟨front, x, back, e, rfl, hfront, hx⟩ := ih
      · exact .inl ⟨b :: bs, by rw [List.map_cons, ha, hbs, List.map_cons]⟩
      · exact .inr ⟨a :: front, x, back, e, rfl, List.forall_mem_cons.2 ⟨⟨b, ha⟩, hfront⟩, hx⟩

end Lists

end OnionTunnel.SessionRegistry
