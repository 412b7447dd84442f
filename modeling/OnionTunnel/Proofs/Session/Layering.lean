import Mathlib.Data.List.Forall2
import OnionTunnel.Proofs.Session.Agreement

/-!
# The law of layers

What one side of a list of sessions encrypts, the other side decrypts, wherever the sessions of the
other side are held. Both operations split with the list: encrypting for a list is encrypting for
its first part and then for its second, and decrypting is decrypting for the second part and then
for the first.

## Implementation notes

Encrypting looks all keys up before it draws the first initial vector. That a split list gives the
same blob needs that the two do not meet: looking up reads and writes the sessions only, putting
layers on reads and writes the tape only.
-/

namespace OnionTunnel.SessionRegistry

open Function Sealed

/-! ### Actions that do not meet -/

section Apart
variable {α β γ : Type}

/-- An action that reads and writes the sessions only. -/
def OnSessions (x : Action α) : Prop :=
  ∀ r, ∃ sessions, ∀ tape,
    x.result { r with tape := tape } =
      ((x.result r).1, { r with sessions := sessions, tape := tape })

/-- An action that reads and writes the tape only. -/
def OnTape (x : Action α) : Prop :=
  ∀ r, ∃ tape, ∀ sessions,
    x.result { r with sessions := sessions } =
      ((x.result r).1, { r with sessions := sessions, tape := tape })

theorem OnSessions.pure (a : α) : OnSessions (Pure.pure a) :=
  fun r => ⟨r.sessions, fun _ => rfl⟩

theorem OnSessions.throw (e : SessionError) : OnSessions (throw e : Action α) :=
  fun r => ⟨r.sessions, fun _ => rfl⟩

theorem OnSessions.bind {x : Action α} {f : α → Action β} (hx : OnSessions x)
    (hf : ∀ a, OnSessions (f a)) : OnSessions (x >>= f) := by
  intro r
  obtain ⟨sessions, hresult⟩ := hx r
  have hself : x.result r = ((x.result r).1, { r with sessions := sessions }) := hresult r.tape
  cases hres : (x.result r).1 with
  | error e =>
    refine ⟨sessions, fun tape => ?_⟩
    rw [hres] at hself
    rw [result_bind, result_bind, hresult, hself]
  | ok a =>
    obtain ⟨sessions', hresult'⟩ := hf a { r with sessions := sessions }
    refine ⟨sessions', fun tape => ?_⟩
    rw [hres] at hself
    rw [result_bind, result_bind, hresult, hself]
    exact hresult' tape

theorem OnTape.bind {x : Action α} {f : α → Action β} (hx : OnTape x)
    (hf : ∀ a, OnTape (f a)) : OnTape (x >>= f) := by
  intro r
  obtain ⟨tape, hresult⟩ := hx r
  have hself : x.result r = ((x.result r).1, { r with tape := tape }) := hresult r.sessions
  cases hres : (x.result r).1 with
  | error e =>
    refine ⟨tape, fun sessions => ?_⟩
    rw [hres] at hself
    rw [result_bind, result_bind, hresult, hself]
  | ok a =>
    obtain ⟨tape', hresult'⟩ := hf a { r with tape := tape }
    refine ⟨tape', fun sessions => ?_⟩
    rw [hres] at hself
    rw [result_bind, result_bind, hresult, hself]
    exact hresult' sessions

/-- Two actions that do not meet and do not fail may come in either order. -/
theorem swap {x : Action α} {y : Action β} (hx : OnSessions x) (hy : OnTape y)
    {r : SessionRegistry} {a : α} {b : β} (ha : (x.result r).1 = .ok a)
    (hb : (y.result r).1 = .ok b) (f : α → β → Action γ) :
    (x >>= fun a => y >>= fun b => f a b).result r =
      (y >>= fun b => x >>= fun a => f a b).result r := by
  obtain ⟨sessions, hsessions⟩ := hx r
  obtain ⟨tape, htape⟩ := hy r
  have hx₁ : x.result r = (.ok a, { r with sessions := sessions }) :=
    (hsessions r.tape).trans (by rw [ha])
  have hy₁ : y.result r = (.ok b, { r with tape := tape }) :=
    (htape r.sessions).trans (by rw [hb])
  have hx₂ : x.result { r with tape := tape } =
      (.ok a, { r with sessions := sessions, tape := tape }) :=
    (hsessions tape).trans (by rw [ha])
  have hy₂ : y.result { r with sessions := sessions } =
      (.ok b, { r with sessions := sessions, tape := tape }) :=
    (htape sessions).trans (by rw [hb])
  simp only [result_bind, hx₁, hy₁, hx₂, hy₂]

theorem onSessions_lookup (id : UInt32) : OnSessions (lookup id) := by
  intro r
  refine ⟨r.sessions, fun tape => ?_⟩
  simp only [lookup, result_bind, result_get]
  cases r.sessions.get? id <;> rfl

theorem onSessions_store (id : UInt32) (s : Session) : OnSessions (store id s) :=
  fun r => ⟨r.sessions.insert id s, fun _ => rfl⟩

theorem onSessions_layer (now : Instant) (macKey? : Session → Option Bytes) (id : UInt32) :
    OnSessions (layer now macKey? id) := by
  apply (onSessions_lookup id).bind
  intro s
  by_cases hestablished : s.isEstablished = true
  · simp only [hestablished, if_true]
    cases macKey? s with
    | none => exact OnSessions.throw _
    | some macKey => exact (onSessions_store id _).bind fun _ => .pure _
  · simp only [hestablished]
    exact OnSessions.throw _

theorem onSessions_layers (now : Instant) (macKey? : Session → Option Bytes) (ids : List UInt32) :
    OnSessions (ids.mapM (layer now macKey?)) := by
  induction ids with
  | nil => exact .pure []
  | cons id ids ih =>
    rw [List.mapM_cons]
    apply (onSessions_layer now macKey? id).bind
    intro l
    exact ih.bind fun ls => .pure _

theorem onTape_wrapAll (ls : List Layer) (data : Bytes) : OnTape (wrapAll ls data) := by
  induction ls generalizing data with
  | nil => exact fun r => ⟨r.tape, fun _ => rfl⟩
  | cons l ls ih =>
    have hdraw : OnTape (draw vectorLength) := fun r =>
      ⟨(r.tape.draw vectorLength).2, fun _ => rfl⟩
    apply hdraw.bind
    intro vector
    cases wrap l.secret l.macKey vector data with
    | ok blob => exact ih blob
    | error e => exact fun r => ⟨r.tape, fun _ => rfl⟩

end Apart

/-! ### Splitting a list of sessions -/

theorem wrapAll_append (ls ms : List Layer) (data : Bytes) :
    wrapAll (ls ++ ms) data = wrapAll ls data >>= wrapAll ms := by
  induction ls generalizing data with
  | nil => simp only [List.nil_append, wrapAll, pure_bind]
  | cons l ls ih =>
    simp only [List.cons_append, wrapAll, bind_assoc]
    congr 1
    funext vector
    cases wrap l.secret l.macKey vector data with
    | ok blob => exact ih blob
    | error e => rfl

section Split
variable {r : SessionRegistry}

/-- Encrypting for established sessions is encrypting for the first of them and then for the
others, with the same initial vectors. -/
theorem layerEncrypt_append (now : Instant) {xs ys : List UInt32} {keys : List (Bytes × Bytes)}
    (hkeys : (xs ++ ys).map (outward? r.holdings) = keys.map some)
    (hvalid : ∀ k ∈ keys, Aes.validLength k.1.length) (payload : Bytes) :
    (layerEncrypt now (xs ++ ys) payload).result r =
      (layerEncrypt now xs payload >>= layerEncrypt now ys).result r := by
  obtain ⟨keys₁, keys₂, rfl, hkeys₁, hkeys₂⟩ : ∃ keys₁ keys₂, keys = keys₁ ++ keys₂ ∧
      xs.map (outward? r.holdings) = keys₁.map some ∧
      ys.map (outward? r.holdings) = keys₂.map some := by
    rw [List.map_append] at hkeys
    obtain ⟨keys₁, keys₂, hsplit, h₁, h₂⟩ := List.map_eq_append_iff.1 hkeys.symm
    exact ⟨keys₁, keys₂, hsplit, h₁.symm, h₂.symm⟩
  have hlook := fun (ids : List UInt32) (r : SessionRegistry) =>
    (@layers_ensures _ _ (fun s => some s.localMac) now (fun _ => rfl) ids r rfl rfl).2
  obtain ⟨hfirst, hsame⟩ := hlook xs r
  obtain ⟨ls, hls, hlayers⟩ | ⟨-, hnone⟩ := hfirst
  · obtain ⟨r₁, hresult⟩ : ∃ r₁, (xs.mapM (layer now fun s => some s.localMac)).result r =
        (.ok ls, r₁) := ⟨_, Prod.ext hls rfl⟩
    rw [hresult] at hsame
    have hsecond := (hlook ys r₁).1
    rw [hsame] at hsecond
    obtain ⟨ms, hms, -⟩ | ⟨-, hnone⟩ := hsecond
    · have hvalid₁ : ∀ l ∈ ls, Aes.validLength l.secret.length := by
        intro l hl
        have hmem : l.keys ∈ keys₁ := by
          rw [map_some_inj (hkeys₁.symm.trans hlayers)]
          exact List.mem_map_of_mem hl
        exact hvalid l.keys (List.mem_append_left keys₂ hmem)
      obtain ⟨blob, hblob, -⟩ := (wrapAll_ensures ls payload r₁ rfl rfl).2.1 hvalid₁
      have hswap := swap (onSessions_layers now (fun s => some s.localMac) ys)
        (onTape_wrapAll ls payload) hms hblob fun ms blob => wrapAll ms blob
      simp only [layerEncrypt, List.mapM_append, bind_assoc, pure_bind, wrapAll_append]
      rw [result_bind, result_bind, hresult]
      exact hswap
    · exact (hnone keys₂ hkeys₂).elim
  · exact (hnone keys₁ hkeys₁).elim

/-- A second action ends well exactly if the first does and the second does after it. -/
theorem result_bind_ok {α β : Type} {x : Action α} {f : α → Action β} {b : β} :
    ((x >>= f).result r).1 = .ok b ↔
      ∃ a, (x.result r).1 = .ok a ∧ ((f a).result (x.result r).2).1 = .ok b := by
  rw [result_bind]
  obtain ⟨res, r'⟩ := x.result r
  cases res <;> simp

/-- Decrypting for a list is decrypting for its second part and then for its first. -/
theorem layerDecrypt_append (now now₁ now₂ : Instant) (xs ys : List UInt32) (blob text : Bytes) :
    ((layerDecrypt now (xs ++ ys) blob).result r).1 = .ok text ↔
      ((layerDecrypt now₁ ys blob >>= layerDecrypt now₂ xs).result r).1 = .ok text := by
  simp only [result_bind_ok, layerDecrypt_ok, holdings_layerDecrypt]
  constructor
  · rintro ⟨keys, hkeys, hpeels⟩
    rw [List.map_append] at hkeys
    obtain ⟨keys₁, keys₂, rfl, hkeys₁, hkeys₂⟩ := List.map_eq_append_iff.1 hkeys.symm
    rw [List.reverse_append] at hpeels
    obtain ⟨inner, hinner, htext⟩ := peels_append.1 hpeels
    exact ⟨inner, ⟨keys₂, hkeys₂.symm, hinner⟩, keys₁, hkeys₁.symm, htext⟩
  · rintro ⟨inner, ⟨keys₂, hkeys₂, hinner⟩, keys₁, hkeys₁, htext⟩
    refine ⟨keys₁ ++ keys₂, ?_, ?_⟩
    · rw [List.map_append, List.map_append, hkeys₁, hkeys₂]
    · rw [List.reverse_append]
      exact hinner.append htext

end Split

/-! ### Peeling at one registry after another -/

/-- A session of one of several registries, and when a layer is taken off there. -/
structure Visit (ι : Type) where
  node : ι
  session : UInt32
  now : Instant

section Visits
variable {ι : Type} [DecidableEq ι] {w : ι → SessionRegistry}

/-- Takes one layer off at each visit. -/
def peelAcross : List (Visit ι) → (ι → SessionRegistry) → Bytes → Except SessionError Bytes
  | [], _, data => .ok data
  | v :: rest, w, data =>
    match (layerDecrypt v.now [v.session] data).result (w v.node) with
    | (.ok inner, r) => peelAcross rest (update w v.node r) inner
    | (.error e, _) => .error e

/-- The keys of the layer that comes off at a visit. -/
def Visit.inward? (v : Visit ι) (w : ι → SessionRegistry) : Option (Bytes × Bytes) :=
  SessionRegistry.inward? (w v.node).holdings v.session

theorem Visit.inward?_update (v : Visit ι) {i : ι} {r : SessionRegistry}
    (h : r.holdings = (w i).holdings) : v.inward? (update w i r) = v.inward? w := by
  unfold Visit.inward?
  by_cases hi : v.node = i
  · rw [hi, update_self, h]
  · rw [update_of_ne hi]

theorem layerDecrypt_singleton {r : SessionRegistry} {now : Instant} {id : UInt32}
    {blob text : Bytes} :
    ((layerDecrypt now [id] blob).result r).1 = .ok text ↔
      ∃ k : Bytes × Bytes, inward? r.holdings id = some k ∧ unwrap k.1 k.2 blob = .ok text := by
  rw [layerDecrypt_ok]
  constructor
  · rintro ⟨keys, hkeys, hpeels⟩
    obtain ⟨k, rest, rfl, hk, hrest⟩ := List.map_eq_cons_iff.1 hkeys.symm
    obtain rfl := List.map_eq_nil_iff.1 hrest
    obtain ⟨inner, hinner, rfl⟩ := hpeels
    exact ⟨k, hk.symm, hinner⟩
  · rintro ⟨k, hk, htext⟩
    exact ⟨[k], by rw [List.map_singleton, hk, List.map_singleton], text, htext, rfl⟩

/-- Peeling at one registry after another ends with a text exactly if the blob peels to it under
the keys of the sessions there. -/
theorem peelAcross_ok {visits : List (Visit ι)} {blob text : Bytes} :
    peelAcross visits w blob = .ok text ↔
      ∃ keys : List (Bytes × Bytes), visits.map (·.inward? w) = keys.map some ∧
        Peels keys blob text := by
  induction visits generalizing w blob with
  | nil =>
    simp only [peelAcross, Except.ok.injEq, List.map_nil, List.nil_eq, List.map_eq_nil_iff,
      exists_eq_left, peels_nil]
  | cons v rest ih =>
    have hsame := @holdings_layerDecrypt (w v.node) v.now [v.session] blob
    have hfirst : ∀ inner, ((layerDecrypt v.now [v.session] blob).result (w v.node)).1 = .ok inner ↔
        ∃ k : Bytes × Bytes, v.inward? w = some k ∧ unwrap k.1 k.2 blob = .ok inner :=
      fun inner => layerDecrypt_singleton
    rw [peelAcross]
    cases hresult : (layerDecrypt v.now [v.session] blob).result (w v.node) with
    | mk res r =>
      rw [hresult] at hsame
      simp only [hresult] at hfirst
      have hvisits : rest.map (·.inward? (update w v.node r)) = rest.map (·.inward? w) :=
        List.map_congr_left fun v' _ => v'.inward?_update hsame
      cases res with
      | ok inner =>
        obtain ⟨k, hk, hunwrap⟩ := (hfirst inner).1 rfl
        simp only [ih, hvisits]
        constructor
        · rintro ⟨keys, hkeys, hpeels⟩
          exact ⟨k :: keys, by rw [List.map_cons, hkeys]; exact congrArg (· :: _) hk, inner,
            hunwrap, hpeels⟩
        · rintro ⟨keys, hkeys, hpeels⟩
          obtain ⟨k', rest', rfl, hk', hrest⟩ := List.map_eq_cons_iff.1 hkeys.symm
          obtain rfl : k' = k := Option.some.inj (hk'.trans hk)
          obtain ⟨inner', hinner', htext⟩ := hpeels
          obtain rfl := Except.ok.inj (hunwrap.symm.trans hinner')
          exact ⟨rest', hrest.symm, htext⟩
      | error e =>
        constructor
        · rintro ⟨⟩
        rintro ⟨keys, hkeys, hpeels⟩
        obtain ⟨k, rest', rfl, hk, -⟩ := List.map_eq_cons_iff.1 hkeys.symm
        obtain ⟨inner, hinner, -⟩ := hpeels
        cases (hfirst inner).2 ⟨k, hk.symm, hinner⟩

/-! ### Both sides of a list of sessions -/

omit [DecidableEq ι] in
theorem keys_of_faces {o : ι} {ids : List UInt32} {visits : List (Visit ι)}
    (h : List.Forall₂ (fun s v => Faces (w o) s (w v.node) v.session) ids visits) :
    ∃ keys : List (Bytes × Bytes), ids.map (outward? (w o).holdings) = keys.map some ∧
      visits.map (·.inward? w) = keys.map some := by
  induction h with
  | nil => exact ⟨[], rfl, rfl⟩
  | cons hfaces _ ih =>
    obtain ⟨k, hout, hin⟩ := hfaces.keys
    obtain ⟨keys, houts, hins⟩ := ih
    refine ⟨k :: keys, ?_, ?_⟩
    · rw [List.map_cons, hout, houts, List.map_cons]
    · rw [List.map_cons, hins, List.map_cons]
      exact congrArg (· :: _) hin

/-- The keys of keyed sessions fit the cipher. -/
theorem valid_of_keyed {v : Holdings} (hv : ∀ id x, v id = some x → Keyed x) {ids : List UInt32}
    {keys : List (Bytes × Bytes)} (h : ids.map (outward? v) = keys.map some) :
    ∀ k ∈ keys, Aes.validLength k.1.length := by
  intro k hk
  have hmem : some k ∈ ids.map (outward? v) := by
    rw [h]
    exact List.mem_map_of_mem hk
  obtain ⟨id, -, hid⟩ := List.mem_map.1 hmem
  obtain ⟨x, hx, hkeys⟩ := Option.bind_eq_some_iff.1 hid
  split at hkeys
  · obtain rfl := Option.some.inj hkeys
    exact (hv id x hx).valid
  · cases hkeys

omit [DecidableEq ι] in
theorem Visit.inward?_eq {i : ι} {v : Visit ι} (h : v.node = i) :
    v.inward? w = SessionRegistry.inward? (w i).holdings v.session := by
  rw [Visit.inward?, h]

/-- Registries that start without sessions do whatever they do. Then one of them encrypts for a list
of its sessions, each of which faces a session of a registry: it gets a blob that is longer by 48
bytes a session, and that gives the payload when the registries peel it one layer each, the last
one first, or when one of them that holds all the sessions decrypts it. Encrypting splits with the
list and so does decrypting, and peeling at one registry after another gives what decrypting gives
wherever the same keys are held. -/
theorem layering {w₀ w : ι → SessionRegistry} {history : List (Event ι)}
    (hrun : Runs w₀ history w) (hnew : ∀ i, (w₀ i).sessions = .empty) (o : ι)
    {ids : List UInt32} {visits : List (Visit ι)}
    (hfaces : List.Forall₂ (fun s v => Faces (w o) s (w v.node) v.session) ids visits)
    (now : Instant) (payload : Bytes) :
    (∃ blob r, (layerEncrypt now ids payload).result (w o) = (.ok blob, r) ∧
      blob.length = payload.length + 48 * ids.length ∧
      peelAcross visits.reverse (update w o r) blob = .ok payload ∧
      ∀ i, (∀ v ∈ visits, v.node = i) → ∀ now',
        ((layerDecrypt now' (visits.map (·.session)) blob).result (update w o r i)).1 =
          .ok payload) ∧
    (∀ xs ys, ids = xs ++ ys → (layerEncrypt now (xs ++ ys) payload).result (w o) =
      (layerEncrypt now xs payload >>= layerEncrypt now ys).result (w o)) ∧
    (∀ r now₀ now₁ now₂ xs ys blob text,
      ((layerDecrypt now₀ (xs ++ ys) blob).result r).1 = .ok text ↔
        ((layerDecrypt now₁ ys blob >>= layerDecrypt now₂ xs).result r).1 = .ok text) ∧
    (∀ r now' ts blob text, ts.map (inward? r.holdings) = visits.map (·.inward? w) →
      (peelAcross visits.reverse w blob = .ok text ↔
        ((layerDecrypt now' ts blob).result r).1 = .ok text)) := by
  obtain ⟨keys, houts, hins⟩ := keys_of_faces hfaces
  have hempty : ∀ i id, (w₀ i).holdings id = none := by
    intro i id
    rw [holdings, hnew]
    rfl
  have hvalid := valid_of_keyed (fun id x hx => hrun.keyed hempty hx) houts
  have hacross : ∀ r now' (ts : List UInt32) blob text,
      ts.map (inward? r.holdings) = visits.map (·.inward? w) →
      (peelAcross visits.reverse w blob = .ok text ↔
        ((layerDecrypt now' ts blob).result r).1 = .ok text) := by
    intro r now' ts blob text hts
    rw [peelAcross_ok, layerDecrypt_ok, hts, List.map_reverse]
    constructor
    · rintro ⟨keys', hkeys', hpeels⟩
      refine ⟨keys'.reverse, ?_, by rwa [List.reverse_reverse]⟩
      rw [List.map_reverse, ← hkeys', List.reverse_reverse]
    · rintro ⟨keys', hkeys', hpeels⟩
      exact ⟨keys'.reverse, by rw [hkeys', List.map_reverse], hpeels⟩
  refine ⟨?_, ?_, fun r now₀ now₁ now₂ => layerDecrypt_append now₀ now₁ now₂, hacross⟩
  · obtain ⟨-, hblob, hsame⟩ := layerEncrypt_ensures now ids payload (w o) rfl rfl
    obtain ⟨blob, hresult, hpeels, hlength⟩ := hblob keys houts hvalid
    have hcount : keys.length = ids.length := by
      simpa using (congrArg List.length houts).symm
    rw [hcount] at hlength
    refine ⟨blob, _, Prod.ext hresult rfl, hlength, ?_, ?_⟩
    · rw [peelAcross_ok]
      refine ⟨keys.reverse, ?_, hpeels⟩
      rw [List.map_reverse, List.map_reverse, ← hins]
      exact congrArg List.reverse (List.map_congr_left fun v _ => v.inward?_update hsame)
    · intro i hi now'
      rw [layerDecrypt_ok]
      refine ⟨keys, ?_, hpeels⟩
      rw [List.map_map, ← hins]
      refine List.map_congr_left fun v hv => ?_
      rw [← v.inward?_update hsame, Visit.inward?_eq (hi v hv)]
      rfl
  · intro xs ys hsplit
    subst hsplit
    exact layerEncrypt_append now houts hvalid payload

/-- A registry puts two layers on for one session, and the registry at the other end takes both
off. -/
theorem layering_twoRegistries :
    ∃ history w s t, Runs twoRegistries history w ∧ Faces (w false) s (w true) t ∧
      ∃ blob r, (layerEncrypt 0 [s, s] [1, 2, 3]).result (w false) = (.ok blob, r) ∧
        blob.length = 99 ∧
        peelAcross [⟨true, t, 1⟩, ⟨true, t, 2⟩] (update w false r) blob = .ok [1, 2, 3] := by
  obtain ⟨history, w, s, t, keyBlock, macBlock, block, hrun, ha, hb⟩ :=
    exists_handshake (show false ≠ true by decide) (twoRegistries_fit false)
      (twoRegistries_fit true) spare_twoRegistries
  have hfaces := (Initiated.agree hrun (twoRegistries_fit false).inverts
    (twoRegistries_fit true).inverts ha hb).forth
  have hboth : List.Forall₂ (fun s (v : Visit Bool) => Faces (w false) s (w v.node) v.session)
      [s, s] [⟨true, t, 2⟩, ⟨true, t, 1⟩] := .cons hfaces (.cons hfaces .nil)
  obtain ⟨⟨blob, r, hresult, hlength, hpeel, -⟩, -⟩ :=
    layering hrun (fun _ => rfl) false hboth 0 [1, 2, 3]
  exact ⟨history, w, s, t, hrun, hfaces, blob, r, hresult, hlength, hpeel⟩

end Visits

end OnionTunnel.SessionRegistry
