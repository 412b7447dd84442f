import OnionTunnel.Proofs.Cipher.Sealed
import OnionTunnel.Proofs.Session.Lookups

/-!
# Layers of established sessions

Each end of an established session has two pairs of keys, one for the layers that it puts on and one
for those that it takes off. Encrypting for a list of sessions never fails, and gives a blob that
peels to the payload; decrypting gives exactly the text that the blob peels to.
-/

namespace OnionTunnel

namespace Session

/-- The keys of the layers that a session puts on. -/
def outward (s : Session) : Bytes × Bytes := (s.sharedKey, s.localMac)

/-- The keys of the layers that a session takes off. -/
def inward (s : Session) : Bytes × Bytes := (s.sharedKey, s.remoteMac?.getD [])

/-- A session that can carry layers in both directions. -/
structure Usable (s : Session) : Prop where
  established : s.handshake.state = .established
  valid : Aes.validLength s.sharedKey.length
  confirmed : s.remoteMac? = some s.inward.2

/-- Two sessions are the ends of one: what either puts on, the other takes off. -/
structure Paired (x y : Session) : Prop where
  forth : x.outward = y.inward
  back : y.outward = x.inward

end Session

namespace SessionRegistry

open Function

open Sealed

/-- The keys of a layer. -/
def Layer.keys (l : Layer) : Bytes × Bytes := (l.secret, l.macKey)

/-- The keys of a session's layer, if it is established and has the tag key that `macKey?` picks. -/
def layerKeys? (macKey? : Session → Option Bytes) (v : Holdings) (id : UInt32) :
    Option (Bytes × Bytes) :=
  (v id).bind fun x => if x.isEstablished then (macKey? x).map (x.sharedKey, ·) else none

/-- The keys of the layers that a session puts on, if it is established. -/
abbrev outward? : Holdings → UInt32 → Option (Bytes × Bytes) := layerKeys? fun x => some x.localMac

/-- The keys of the layers that a session takes off, if it is established. -/
abbrev inward? : Holdings → UInt32 → Option (Bytes × Bytes) := layerKeys? (·.remoteMac?)

section Steps
variable {R : Setting} {v : Holdings} {macKey? : Session → Option Bytes}

theorem layerKeys?_of_some {id : UInt32} {x : Session} {macKey : Bytes} (h : v id = some x)
    (hstate : x.handshake.state = .established) (hmac : macKey? x = some macKey) :
    layerKeys? macKey? v id = some (x.sharedKey, macKey) := by
  have hestablished : x.isEstablished = true := decide_eq_true hstate
  simp [layerKeys?, h, hestablished, hmac]

theorem outward?_of_get? {r : SessionRegistry} {id : UInt32} {x : Session}
    (h : r.sessions.get? id = some x) (hx : x.isEstablished = true) :
    outward? r.holdings id = some (x.sharedKey, x.localMac) :=
  @layerKeys?_of_some _ _ id x.untimed _ (by rw [holdings, h]; rfl) (of_decide_eq_true hx) rfl

theorem inward?_of_get? {r : SessionRegistry} {id : UInt32} {x : Session} {mac : Bytes}
    (h : r.sessions.get? id = some x) (hx : x.isEstablished = true)
    (hmac : x.remoteMac? = some mac) : inward? r.holdings id = some (x.sharedKey, mac) :=
  @layerKeys?_of_some _ _ id x.untimed _ (by rw [holdings, h]; rfl) (of_decide_eq_true hx) hmac

theorem map_layerKeys?_of_some (keysOf : Session → Bytes × Bytes) {ids : List UInt32}
    {xs : List Session} (h : ids.map v = xs.map some)
    (hxs : ∀ x ∈ xs, x.handshake.state = .established ∧ ∃ macKey, macKey? x = some macKey ∧
      keysOf x = (x.sharedKey, macKey)) :
    ids.map (layerKeys? macKey? v) = (xs.map keysOf).map some := by
  induction ids generalizing xs with
  | nil =>
      obtain rfl : xs = [] := by simpa using h.symm
      rfl
  | cons id ids ih =>
      obtain _ | ⟨x, xs⟩ := xs
      · cases h
      · obtain ⟨hid, hids⟩ := List.cons.inj h
        obtain ⟨hstate, macKey, hmac, hkeys⟩ := hxs x (by simp)
        rw [List.map_cons, layerKeys?_of_some hid hstate hmac,
          ih hids fun y hy => hxs y (List.mem_cons_of_mem x hy), List.map_cons, hkeys]
        rfl

theorem map_outward?_of_usable {ids : List UInt32} {xs : List Session}
    (h : ids.map v = xs.map some) (hxs : ∀ x ∈ xs, x.Usable) :
    ids.map (outward? v) = (xs.map Session.outward).map some :=
  map_layerKeys?_of_some _ h fun x hx => ⟨(hxs x hx).established, _, rfl, rfl⟩

theorem map_inward?_of_usable {ids : List UInt32} {xs : List Session}
    (h : ids.map v = xs.map some) (hxs : ∀ x ∈ xs, x.Usable) :
    ids.map (inward? v) = (xs.map Session.inward).map some :=
  map_layerKeys?_of_some _ h fun x hx => ⟨(hxs x hx).established, _, (hxs x hx).confirmed, rfl⟩

theorem map_some_inj {α : Type} {as bs : List α} (h : as.map some = bs.map some) : as = bs :=
  (List.map_inj_right fun _ _ => Option.some.inj).1 h

/-- A session has keys for layers exactly if its layer can be looked up. -/
theorem layerKeys?_eq (macKey? : Session → Option Bytes) (v : Holdings) (id : UInt32) :
    layerKeys? macKey? v id = (pick macKey? v id).toOption.map Layer.keys := by
  unfold layerKeys? pick
  cases v id with
  | none => rfl
  | some x =>
    simp only [Option.bind_some]
    by_cases hestablished : x.isEstablished = true
    · simp only [hestablished, if_true]
      cases macKey? x <;> rfl
    · simp only [hestablished]
      rfl

theorem map_layerKeys?_of_pick {ids : List UInt32} {ls : List Layer}
    (h : ids.map (pick macKey? v) = ls.map .ok) :
    ids.map (layerKeys? macKey? v) = (ls.map Layer.keys).map some := by
  calc ids.map (layerKeys? macKey? v)
      = (ids.map (pick macKey? v)).map (fun l => l.toOption.map Layer.keys) := by
        rw [List.map_map]
        exact List.map_congr_left fun id _ => layerKeys?_eq macKey? v id
    _ = (ls.map Layer.keys).map some := by
        rw [h, List.map_map, List.map_map]
        rfl

/-- Looking up the keys of layers changes no more than when their sessions were last active. -/
theorem layers_ensures (now : Instant) (huntimed : ∀ s : Session, macKey? s.untimed = macKey? s)
    (ids : List UInt32) :
    Ensures R v (ids.mapM (layer now macKey?)) fun res v' =>
      ((∃ ls, res = .ok ls ∧ ids.map (layerKeys? macKey? v) = (ls.map Layer.keys).map some) ∨
        (∃ e, res = .error e) ∧ ∀ keys : List (Bytes × Bytes),
          ids.map (layerKeys? macKey? v) ≠ keys.map some) ∧ v' = v := by
  rintro r rfl rfl
  rw [Gives, layers_result huntimed]
  refine ⟨setting_touchAll _, ?_, holdings_touchAll _⟩
  obtain ⟨ls, hls⟩ | ⟨front, id, back, e, rfl, hfront, hid⟩ :=
    forall_ok_or_first_error (pick macKey? r.holdings) ids
  · exact .inl ⟨ls, mapM_of_ok hls, map_layerKeys?_of_pick hls⟩
  · refine .inr ⟨⟨e, mapM_of_error hfront hid⟩, fun keys hkeys => ?_⟩
    have hnone : layerKeys? macKey? r.holdings id = none := by
      rw [layerKeys?_eq, hid]
      rfl
    have hmem : none ∈ (front ++ id :: back).map (layerKeys? macKey? r.holdings) :=
      List.mem_map.2 ⟨id, by simp, hnone⟩
    rw [hkeys] at hmem
    simp at hmem

/-- Layers that are put on come off in reverse order. -/
theorem wrapAll_ensures (ls : List Layer) (data : Bytes) :
    Ensures R v (wrapAll ls data) fun res v' =>
      ((∀ l ∈ ls, Aes.validLength l.secret.length) → ∃ blob, res = .ok blob ∧
        Peels (ls.map Layer.keys).reverse blob data ∧
        blob.length = data.length + overhead * ls.length) ∧ v' = v := by
  induction ls generalizing data with
  | nil => exact Ensures.pure ⟨fun _ => ⟨data, rfl, rfl, rfl⟩, rfl⟩
  | cons l ls ih =>
      apply (draw_ensures _).andThen
      rintro vector _ ⟨hvector, rfl⟩
      cases hwrap : wrap l.secret l.macKey vector data with
      | ok blob =>
        apply (ih blob).mono
        rintro res _ ⟨hblob, rfl⟩
        refine ⟨fun hls => ?_, rfl⟩
        obtain ⟨outer, rfl, hpeels, hlen⟩ := hblob fun l' hl' => hls l' (List.mem_cons_of_mem l hl')
        refine ⟨outer, rfl, ?_, ?_⟩
        · rw [List.map_cons, List.reverse_cons]
          exact hpeels.append ⟨data, unwrap_wrap hvector hwrap, rfl⟩
        · rw [hlen, length_wrap hvector hwrap, List.length_cons, Nat.mul_succ]
          omega
      | error e =>
        refine Ensures.throw ⟨fun hls => ?_, rfl⟩
        obtain ⟨body, -, hok⟩ := @wrap_of_valid l.secret l.macKey vector data (hls l (by simp))
        exact (ok_ne_error hok hwrap).elim

/-- Peeling ends with a text exactly if the blob peels to it. -/
theorem peelAll_ok {index : Nat} {ls : List Layer} {blob text : Bytes} :
    peelAll index ls blob = .ok text ↔ Peels (ls.map Layer.keys) blob text := by
  induction ls generalizing index blob with
  | nil => exact ⟨Except.ok.inj, congrArg Except.ok⟩
  | cons l ls ih =>
      rw [peelAll, List.map_cons, peels_cons]
      cases hinner : unwrap l.keys.1 l.keys.2 blob with
      | ok inner =>
        rw [show unwrap l.secret l.macKey blob = .ok inner from hinner]
        simp only [ih, Except.ok.injEq, exists_eq_left']
      | error e =>
        rw [show unwrap l.secret l.macKey blob = .error e from hinner]
        cases e <;> simp

theorem layerEncrypt_ensures (now : Instant) (ids : List UInt32) (payload : Bytes) :
    Ensures R v (layerEncrypt now ids payload) fun res v' =>
      (∀ keys : List (Bytes × Bytes), ids.map (outward? v) = keys.map some →
        (∀ k ∈ keys, Aes.validLength k.1.length) → ∃ blob, res = .ok blob ∧
          Peels keys.reverse blob payload ∧
          blob.length = payload.length + overhead * keys.length) ∧ v' = v := by
  apply (layers_ensures now (fun _ => rfl) ids).bind
  · rintro ls _ ⟨⟨_, ⟨⟩, hls⟩ | ⟨⟨_, ⟨⟩⟩, _⟩, rfl⟩
    apply (wrapAll_ensures ls payload).mono
    rintro res _ ⟨hblob, rfl⟩
    refine ⟨fun keys hkeys hvalid => ?_, rfl⟩
    obtain rfl := map_some_inj (hls.symm.trans hkeys)
    rw [List.length_map]
    exact hblob fun l hl => hvalid l.keys (List.mem_map_of_mem hl)
  · rintro e _ ⟨⟨_, ⟨⟩, _⟩ | ⟨-, hnone⟩, rfl⟩
    exact ⟨fun keys hkeys => (hnone keys hkeys).elim, rfl⟩

/-- Decrypting gives exactly the text that the blob peels to under the keys of the sessions. -/
theorem layerDecrypt_ensures (now : Instant) (ids : List UInt32) (blob : Bytes) :
    Ensures R v (layerDecrypt now ids blob) fun res v' =>
      (∀ text, res = .ok text ↔
        ∃ keys : List (Bytes × Bytes), ids.map (inward? v) = keys.map some ∧
          Peels keys.reverse blob text) ∧ v' = v := by
  apply (layers_ensures now (fun _ => rfl) ids).bind
  · rintro ls v' ⟨⟨_, ⟨⟩, hls⟩ | ⟨⟨_, ⟨⟩⟩, _⟩, rfl⟩
    have hpeels : ∀ text, (∃ keys : List (Bytes × Bytes), ids.map (inward? v') = keys.map some ∧
        Peels keys.reverse blob text) ↔ peelAll 0 ls.reverse blob = .ok text := by
      intro text
      rw [peelAll_ok, List.map_reverse]
      constructor
      · rintro ⟨keys, hkeys, h⟩
        obtain rfl := map_some_inj (hls.symm.trans hkeys)
        exact h
      · intro h
        exact ⟨_, hls, h⟩
    simp only [hpeels]
    cases peelAll 0 ls.reverse blob with
    | ok text => exact Ensures.pure ⟨fun _ => Iff.rfl, rfl⟩
    | error e => exact Ensures.throw ⟨fun _ => Iff.rfl, rfl⟩
  · rintro e _ ⟨⟨_, ⟨⟩, _⟩ | ⟨-, hnone⟩, rfl⟩
    refine ⟨fun text => ⟨nofun, ?_⟩, rfl⟩
    rintro ⟨keys, hkeys, -⟩
    exact (hnone keys hkeys).elim

variable {r : SessionRegistry}

/-- Decrypting ends with a text exactly if the blob peels to it under the keys of the sessions. -/
theorem layerDecrypt_ok {now : Instant} {ids : List UInt32} {blob text : Bytes} :
    ((layerDecrypt now ids blob).result r).1 = .ok text ↔
      ∃ keys : List (Bytes × Bytes), ids.map (inward? r.holdings) = keys.map some ∧
        Peels keys.reverse blob text :=
  (layerDecrypt_ensures now ids blob r rfl rfl).2.1 text

theorem holdings_layerDecrypt (now : Instant) (ids : List UInt32) (blob : Bytes) :
    ((layerDecrypt now ids blob).result r).2.holdings = r.holdings :=
  (layerDecrypt_ensures now ids blob r rfl rfl).2.2

end Steps

end SessionRegistry

end OnionTunnel
