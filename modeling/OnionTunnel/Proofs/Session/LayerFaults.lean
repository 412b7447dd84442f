import OnionTunnel.Proofs.Session.Layering

/-!
# Where layers fail

Decrypting for a list of sessions looks all of them up first, in list order, and then peels from the
end of the list. So a fault of a look-up names the first session that cannot carry layers, whatever
the blob is, and a fault of a peel is at as many layers as came off before it.

`Strips` says what is left of a blob when the layers of a part of the list have come off; the peel
of the session before that part fails by the length or the tag of what is left, and in no other way.
-/

namespace OnionTunnel.SessionRegistry

open Function Sealed
open SessionRegistry.Action (Grants)

/-- A session is held and established. -/
def Established (v : Holdings) (id : UInt32) : Prop :=
  ∃ x, v id = some x ∧ x.handshake.state = .established

/-- The layers of some sessions come off a blob, the last session's first. -/
def Strips (v : Holdings) (ids : List UInt32) (blob inner : Bytes) : Prop :=
  ∃ keys : List (Bytes × Bytes), ids.map (inward? v) = keys.map some ∧ Peels keys.reverse blob inner

/-- The error of a layer that does not come off. -/
def faultAt (index : Nat) (session : UInt32) : CipherError → SessionError
  | .macMismatch => .macMismatch index session
  | e => .cipher e

/-! ### Peeling -/

section Peeling
variable {index : Nat} {ls ms : List Layer} {l : Layer} {blob inner : Bytes}

theorem peelAll_cons_of_error {fault : CipherError}
    (h : unwrap l.secret l.macKey blob = .error fault) :
    peelAll index (l :: ls) blob = .error (faultAt index l.session fault) := by
  rw [peelAll, h]
  cases fault <;> rfl

/-- Layers that come off leave the others, whose numbers go on from there. -/
theorem peelAll_append (h : Peels (ls.map Layer.keys) blob inner) :
    peelAll index (ls ++ ms) blob = peelAll (index + ls.length) ms inner := by
  induction ls generalizing index blob with
  | nil =>
    rw [h]
    rfl
  | cons l ls ih =>
    obtain ⟨next, hnext, hrest⟩ := h
    have hopened : unwrap l.secret l.macKey blob = .ok next := hnext
    rw [List.cons_append, peelAll, hopened]
    show peelAll (index + 1) (ls ++ ms) next = _
    rw [ih hrest, List.length_cons, Nat.add_right_comm, Nat.add_assoc]

/-- Peeling gives a text, or some layers come off and the next one does not. -/
theorem peelAll_cases (ls : List Layer) (blob : Bytes) :
    (∃ text, Peels (ls.map Layer.keys) blob text) ∨
      ∃ outer l rest inner fault, ls = outer ++ l :: rest ∧
        Peels (outer.map Layer.keys) blob inner ∧
        unwrap l.secret l.macKey inner = .error fault := by
  induction ls generalizing blob with
  | nil => exact .inl ⟨blob, rfl⟩
  | cons l ls ih =>
    cases hopened : unwrap l.secret l.macKey blob with
    | error fault => exact .inr ⟨[], l, ls, blob, fault, rfl, rfl, hopened⟩
    | ok next =>
      obtain ⟨text, htext⟩ | ⟨outer, l', rest, inner, fault, rfl, hinner, hfault⟩ := ih next
      · exact .inl ⟨text, next, hopened, htext⟩
      · exact .inr ⟨l :: outer, l', rest, inner, fault, rfl, ⟨next, hopened, hinner⟩, hfault⟩

end Peeling

/-! ### Decrypting -/

section Faults
variable (now : Instant) {r : SessionRegistry} {ids front back : List UInt32} {s : UInt32}
  {blob inner : Bytes} {ls outer rest : List Layer} {l : Layer}

/-- The first session that cannot be looked up is the one that decrypting names. -/
theorem layerDecrypt_of_refused {e : SessionError}
    (hfront : ∀ id ∈ front, ∃ l, pick (·.remoteMac?) r.holdings id = .ok l)
    (hs : pick (·.remoteMac?) r.holdings s = .error e) :
    ((layerDecrypt now (front ++ s :: back) blob).result r).1 = .error e := by
  rw [layerDecrypt_result, mapM_of_error hfront hs]
  rfl

/-- Established sessions have layers that come off under a key that fits the cipher. -/
theorem pick_of_established {v : Holdings} (hv : ∀ id x, v id = some x → Keyed x) {id : UInt32}
    (h : Established v id) :
    ∃ l, pick (·.remoteMac?) v id = .ok l ∧ l.session = id ∧ Aes.validLength l.secret.length := by
  obtain ⟨x, hx, hstate⟩ := h
  obtain ⟨hvalid, hconfirmed⟩ := hv id x hx
  obtain ⟨mac, hmac⟩ := Option.isSome_iff_exists.1 (hconfirmed hstate)
  exact ⟨⟨id, x.sharedKey, mac⟩, pick_eq_ok.2 ⟨x, mac, hx, hstate, hmac, rfl⟩, rfl, hvalid⟩

/-- The layers of established sessions. -/
theorem exists_layers {v : Holdings} (hv : ∀ id x, v id = some x → Keyed x)
    (h : ∀ id ∈ ids, Established v id) :
    ∃ ls : List Layer, ids = ls.map (·.session) ∧
      ∀ l ∈ ls, pick (·.remoteMac?) v l.session = .ok l ∧ Aes.validLength l.secret.length := by
  induction ids with
  | nil => exact ⟨[], rfl, by simp⟩
  | cons id ids ih =>
    obtain ⟨hid, hids⟩ := List.forall_mem_cons.1 h
    obtain ⟨l, hl, rfl, hvalid⟩ := pick_of_established hv hid
    obtain ⟨ls, rfl, hls⟩ := ih hids
    exact ⟨l :: ls, rfl, List.forall_mem_cons.2 ⟨⟨hl, hvalid⟩, hls⟩⟩

theorem map_pick {v : Holdings} (hls : ∀ l ∈ ls, pick (·.remoteMac?) v l.session = .ok l) :
    (ls.map (·.session)).map (pick (·.remoteMac?) v) = ls.map .ok := by
  rw [List.map_map]
  exact List.map_congr_left hls

theorem strips_iff {v : Holdings} (hls : ∀ l ∈ ls, pick (·.remoteMac?) v l.session = .ok l) :
    Strips v (ls.map (·.session)) blob inner ↔ Peels (ls.map Layer.keys).reverse blob inner := by
  have hkeys := map_layerKeys?_of_pick (map_pick hls)
  constructor
  · rintro ⟨keys, hsome, hpeels⟩
    obtain rfl := map_some_inj (hkeys.symm.trans hsome)
    exact hpeels
  · intro hpeels
    exact ⟨_, hkeys, hpeels⟩

/-- Decrypting for sessions with layers peels these, the last one first. -/
theorem layerDecrypt_layers (hls : ∀ l ∈ ls, pick (·.remoteMac?) r.holdings l.session = .ok l) :
    ((layerDecrypt now (ls.map (·.session)) blob).result r).1 = peelAll 0 ls.reverse blob := by
  rw [layerDecrypt_result, mapM_of_ok (map_pick hls)]
  rfl

/-- A fault of a peel is at as many layers as came off before it. -/
theorem layerDecrypt_of_fault {fault : CipherError}
    (hls : ∀ l' ∈ rest ++ l :: outer, pick (·.remoteMac?) r.holdings l'.session = .ok l')
    (hinner : Strips r.holdings (outer.map (·.session)) blob inner)
    (hfault : unwrap l.secret l.macKey inner = .error fault) :
    ((layerDecrypt now ((rest ++ l :: outer).map (·.session)) blob).result r).1 =
      .error (faultAt outer.length l.session fault) := by
  have houter : ∀ l' ∈ outer, pick (·.remoteMac?) r.holdings l'.session = .ok l' :=
    fun l' hl' => hls l' (by simp [hl'])
  have hpeels : Peels (outer.reverse.map Layer.keys) blob inner := by
    rw [List.map_reverse]
    exact (strips_iff houter).1 hinner
  calc ((layerDecrypt now ((rest ++ l :: outer).map (·.session)) blob).result r).1
      = peelAll 0 (outer.reverse ++ (l :: rest.reverse)) blob := by
        rw [layerDecrypt_layers now hls]
        simp
    _ = peelAll outer.length (l :: rest.reverse) inner := by
        rw [peelAll_append hpeels, List.length_reverse, Nat.zero_add]
    _ = .error (faultAt outer.length l.session fault) := peelAll_cons_of_error hfault

/-- The same for a list of established sessions, cut where the peel fails. -/
theorem layerDecrypt_of_established (hv : ∀ id x, r.holdings id = some x → Keyed x)
    (hids : ∀ id ∈ front ++ s :: back, Established r.holdings id)
    (hback : Strips r.holdings back blob inner) (hs : pick (·.remoteMac?) r.holdings s = .ok l)
    {fault : CipherError} (hfault : unwrap l.secret l.macKey inner = .error fault) :
    ((layerDecrypt now (front ++ s :: back) blob).result r).1 =
      .error (faultAt back.length s fault) := by
  obtain ⟨ls, hsplit, hls⟩ := exists_layers hv hids
  obtain ⟨rest, tail, rfl, rfl, htail⟩ := List.map_eq_append_iff.1 hsplit.symm
  obtain ⟨l', outer, rfl, rfl, rfl⟩ := List.map_eq_cons_iff.1 htail
  have hl' := (hls l' (by simp)).1
  obtain rfl : l' = l := Except.ok.inj (hl'.symm.trans hs)
  rw [hsplit, List.length_map]
  exact layerDecrypt_of_fault now (fun l hl => (hls l hl).1) hback hfault

theorem layerDecrypt_of_mistagged (hv : ∀ id x, r.holdings id = some x → Keyed x)
    (hids : ∀ id ∈ front ++ s :: back, Established r.holdings id)
    (hback : Strips r.holdings back blob inner) {x : Session} {mac : Bytes}
    (hx : r.holdings s = some x) (hmac : x.remoteMac? = some mac) (h : Mistagged mac inner) :
    ((layerDecrypt now (front ++ s :: back) blob).result r).1 =
      .error (.macMismatch back.length s) := by
  obtain ⟨x', hx', hstate⟩ := hids s (by simp)
  obtain rfl := Option.some.inj (hx.symm.trans hx')
  exact layerDecrypt_of_established now hv hids hback (pick_eq_ok.2 ⟨x, mac, hx, hstate, hmac, rfl⟩)
    (unwrap_of_mistagged h)

theorem layerDecrypt_of_short (hv : ∀ id x, r.holdings id = some x → Keyed x)
    (hids : ∀ id ∈ front ++ s :: back, Established r.holdings id)
    (hback : Strips r.holdings back blob inner) (h : inner.length < overhead) :
    ((layerDecrypt now (front ++ s :: back) blob).result r).1 =
      .error (.cipher (.tooShort inner.length overhead)) := by
  obtain ⟨l, hl, -⟩ := pick_of_established hv (hids s (by simp))
  exact layerDecrypt_of_established now hv hids hback hl (unwrap_of_short h)

/-- The layers of established sessions come off a blob, or the peel of one of them meets too few
bytes or a wrong tag. -/
theorem strips_cases (hv : ∀ id x, r.holdings id = some x → Keyed x)
    (hids : ∀ id ∈ ids, Established r.holdings id) (blob : Bytes) :
    (∃ text, Strips r.holdings ids blob text) ∨
      ∃ front s back inner, ids = front ++ s :: back ∧ Strips r.holdings back blob inner ∧
        (inner.length < overhead ∨ ∃ x mac, r.holdings s = some x ∧ x.remoteMac? = some mac ∧
          Mistagged mac inner) := by
  obtain ⟨ls, rfl, hls⟩ := exists_layers hv hids
  have hpick : ∀ l ∈ ls, pick (·.remoteMac?) r.holdings l.session = .ok l := fun l hl => (hls l hl).1
  obtain ⟨text, htext⟩ | ⟨outer, l, rest, inner, fault, hsplit, hpeels, hfault⟩ :=
    peelAll_cases ls.reverse blob
  · rw [List.map_reverse] at htext
    exact .inl ⟨text, (strips_iff hpick).2 htext⟩
  · obtain rfl : ls = rest.reverse ++ l :: outer.reverse := by
      rw [← List.reverse_reverse ls, hsplit]
      simp
    obtain ⟨hl, hvalid⟩ := hls l (by simp)
    have hinner : Strips r.holdings (outer.reverse.map (·.session)) blob inner := by
      rw [strips_iff fun l' hl' => hpick l' (by simpa using .inr (.inr (by simpa using hl'))),
        List.map_reverse, List.reverse_reverse]
      exact hpeels
    refine .inr ⟨_, l.session, _, inner, by rw [List.map_append, List.map_cons], hinner, ?_⟩
    obtain hshort | htag | ⟨text, htext⟩ := unwrap_cases hvalid l.macKey inner
    · exact .inl hshort
    · obtain ⟨x, mac, hx, -, hmac, hlayer⟩ := pick_eq_ok.1 hl
      rw [hlayer] at htag
      exact .inr ⟨x, mac, hx, hmac, htag⟩
    · cases htext.symm.trans hfault

end Faults

/-! ### Blobs of a peer -/

section Sealed
variable {r r' : SessionRegistry}

theorem draw_grants (n : Nat) : Grants (draw n) (·.length = n) := by
  intro r b hb
  obtain rfl := Except.ok.inj hb
  exact Tape.length_draw _ n

/-- The layers that are put on come off. -/
theorem wrapAll_grants (ls : List Layer) (data : Bytes) :
    Grants (wrapAll ls data) fun blob => Peels (ls.map Layer.keys).reverse blob data := by
  induction ls generalizing data with
  | nil => exact .pure rfl
  | cons l ls ih =>
    refine (draw_grants vectorLength).bind ?_
    intro vector hvector
    cases hwrap : wrap l.secret l.macKey vector data with
    | error e => exact .throw _ _
    | ok blob =>
      intro r outer houter
      rw [List.map_cons, List.reverse_cons]
      exact (ih blob r outer houter).append ⟨data, unwrap_wrap hvector hwrap, rfl⟩

/-- Below the layers put on after it, a layer begins with the tag of its rest. -/
theorem wrapAll_grants_tag (inside : List Layer) (l : Layer) (outside : List Layer)
    (data : Bytes) :
    Grants (wrapAll (inside ++ l :: outside) data) fun blob =>
      ∃ body : Bytes, vectorLength ≤ body.length ∧
        Peels (outside.map Layer.keys).reverse blob (Hmac.sign l.macKey body ++ body) := by
  rw [wrapAll_append]
  refine Grants.bind (.any _) ?_
  intro mid _
  refine (draw_grants vectorLength).bind ?_
  intro vector hvector
  cases hwrap : wrap l.secret l.macKey vector mid with
  | error e => exact .throw _ _
  | ok blob =>
    intro r outer houter
    obtain ⟨body, rfl⟩ : ∃ body, blob = Hmac.sign l.macKey body ++ body := by
      rw [wrap] at hwrap
      cases hbody : encrypt l.secret vector mid with
      | error e => rw [hbody] at hwrap; cases hwrap
      | ok body =>
        rw [hbody] at hwrap
        exact ⟨body, (Except.ok.inj hwrap).symm⟩
    have hlength := length_wrap hvector hwrap
    rw [List.length_append, Hmac.length_sign, overhead] at hlength
    exact ⟨body, by omega, wrapAll_grants outside _ r outer houter⟩

/-- What a registry seals for a list of sessions peels, under the keys of those behind one of them,
to a tag under that one's own tag key and the rest. -/
theorem layerEncrypt_tag {now : Instant} {front back : List UInt32} {a : UInt32} {y : Session}
    {payload blob : Bytes} (hy : r'.holdings a = some y)
    (h : ((layerEncrypt now (front ++ a :: back) payload).result r').1 = .ok blob) :
    ∃ (body : Bytes) (keys : List (Bytes × Bytes)), vectorLength ≤ body.length ∧
      back.map (outward? r'.holdings) = keys.map some ∧
      Peels keys.reverse blob (Hmac.sign y.localMac body ++ body) := by
  obtain ⟨ls, hls, hblob⟩ := result_bind_ok.1 h
  rw [layers_result fun _ => rfl] at hls
  obtain ⟨ls', hpicks⟩ | ⟨_, _, _, e, hsplit, hfront, herror⟩ :=
    forall_ok_or_first_error (pick (fun s => some s.localMac) r'.holdings) (front ++ a :: back)
  · obtain rfl : ls' = ls := Except.ok.inj ((mapM_of_ok hpicks).symm.trans hls)
    rw [List.map_append] at hpicks
    obtain ⟨inside, tail, rfl, -, htail⟩ := List.map_eq_append_iff.1 hpicks.symm
    obtain ⟨l, outside, rfl, hl, houtside⟩ := List.map_eq_cons_iff.1 htail
    obtain ⟨y', macKey, hy', -, hmac, rfl⟩ := pick_eq_ok.1 hl.symm
    obtain rfl := Option.some.inj (hy.symm.trans hy')
    obtain rfl := Option.some.inj hmac
    obtain ⟨body, hlength, hpeels⟩ := wrapAll_grants_tag inside _ outside payload _ blob hblob
    exact ⟨body, _, hlength, map_layerKeys?_of_pick houtside.symm, hpeels⟩
  · rw [hsplit, mapM_of_error hfront herror] at hls
    cases hls

/-- Sessions take off what the sessions facing them put on. -/
theorem map_inward?_of_faces {back back' : List UInt32}
    (h : List.Forall₂ (fun a b => Faces r' a r b) back' back) :
    back.map (inward? r.holdings) = back'.map (outward? r'.holdings) := by
  induction h with
  | nil => rfl
  | cons hfaces _ ih =>
    obtain ⟨k, hout, hin⟩ := hfaces.keys
    rw [List.map_cons, List.map_cons, ih, hout, hin]

theorem mistagged_append {macKey macKey' body : Bytes} (hlength : vectorLength ≤ body.length)
    (h : Hmac.sign macKey body ≠ Hmac.sign macKey' body) :
    Mistagged macKey (Hmac.sign macKey' body ++ body) := by
  have htag : (Hmac.sign macKey' body).length = Hmac.tagLength := Hmac.length_sign _ _
  constructor
  · rw [List.length_append, htag, overhead]
    omega
  · rw [List.take_left' htag, List.drop_left' htag]
    exact h.symm

end Sealed

/-! ### The error of a list -/

/-- How decrypting for established sessions ends. -/
structure Located (v : Holdings) (ids : List UInt32) (blob : Bytes)
    (res : Except SessionError Bytes) : Prop where
  /-- A wrong tag is at as many layers as came off before it, and at the session whose peel met
  it. -/
  mistagged (k : Nat) (s : UInt32) : res = .error (.macMismatch k s) ↔
    ∃ front back inner x mac, ids = front ++ s :: back ∧ back.length = k ∧
      Strips v back blob inner ∧ v s = some x ∧ x.remoteMac? = some mac ∧ Mistagged mac inner
  /-- Data is too short where a peel meets fewer bytes than sealing adds. -/
  short (m n : Nat) : res = .error (.cipher (.tooShort m n)) ↔
    ∃ front s back inner, ids = front ++ s :: back ∧ Strips v back blob inner ∧
      inner.length < 48 ∧ m = inner.length ∧ n = 48
  /-- It fails in no other way, and a text is shorter than the blob by 48 bytes a session. -/
  only : (∃ text, res = .ok text ∧ Strips v ids blob text ∧
      blob.length = text.length + 48 * ids.length) ∨
    (∃ k s, res = .error (.macMismatch k s)) ∨ ∃ m n, res = .error (.cipher (.tooShort m n))

section Located
variable (now : Instant) {r : SessionRegistry} {ids : List UInt32}

/-- Decrypting for established sessions gives a text, or stops at a wrong tag, or at too few
bytes. -/
theorem layerDecrypt_ends (hv : ∀ id x, r.holdings id = some x → Keyed x)
    (hids : ∀ id ∈ ids, Established r.holdings id) (blob : Bytes) :
    (∃ text, ((layerDecrypt now ids blob).result r).1 = .ok text ∧
        Strips r.holdings ids blob text) ∨
      (∃ front s back inner x mac, ids = front ++ s :: back ∧ Strips r.holdings back blob inner ∧
        r.holdings s = some x ∧ x.remoteMac? = some mac ∧ Mistagged mac inner ∧
        ((layerDecrypt now ids blob).result r).1 = .error (.macMismatch back.length s)) ∨
      ∃ front s back inner, ids = front ++ s :: back ∧ Strips r.holdings back blob inner ∧
        inner.length < overhead ∧
        ((layerDecrypt now ids blob).result r).1 =
          .error (.cipher (.tooShort inner.length overhead)) := by
  obtain ⟨text, htext⟩ | ⟨front, s, back, inner, rfl, hback, hstop⟩ := strips_cases hv hids blob
  · exact .inl ⟨text, layerDecrypt_ok.2 htext, htext⟩
  · obtain hlength | ⟨x, mac, hx, hmac, htag⟩ := hstop
    · have hres := layerDecrypt_of_short now hv hids hback hlength
      exact .inr (.inr ⟨front, s, back, inner, rfl, hback, hlength, hres⟩)
    · have hres := layerDecrypt_of_mistagged now hv hids hback hx hmac htag
      exact .inr (.inl ⟨front, s, back, inner, x, mac, rfl, hback, hx, hmac, htag, hres⟩)

theorem located (hv : ∀ id x, r.holdings id = some x → Keyed x)
    (hids : ∀ id ∈ ids, Established r.holdings id) (blob : Bytes) :
    Located r.holdings ids blob ((layerDecrypt now ids blob).result r).1 := by
  have hends := layerDecrypt_ends now hv hids blob
  constructor
  case mistagged =>
    intro k s
    constructor
    · intro hres
      rw [hres] at hends
      obtain ⟨text, htext, -⟩ | ⟨front, s', back, inner, x, mac, hsplit, hback, hx, hmac, htag, h⟩ |
        ⟨front, s', back, inner, -, -, -, h⟩ := hends
      · cases htext
      · cases h
        exact ⟨front, back, inner, x, mac, hsplit, rfl, hback, hx, hmac, htag⟩
      · cases h
    · rintro ⟨front, back, inner, x, mac, rfl, rfl, hback, hx, hmac, htag⟩
      exact layerDecrypt_of_mistagged now hv hids hback hx hmac htag
  case short =>
    intro m n
    constructor
    · intro hres
      rw [hres] at hends
      obtain ⟨text, htext, -⟩ | ⟨front, s', back, inner, x, mac, -, -, -, -, -, h⟩ |
        ⟨front, s', back, inner, hsplit, hback, hlength, h⟩ := hends
      · cases htext
      · cases h
      · cases h
        exact ⟨front, s', back, inner, hsplit, hback, hlength, rfl, rfl⟩
    · rintro ⟨front, s, back, inner, rfl, hback, hlength, rfl, rfl⟩
      exact layerDecrypt_of_short now hv hids hback hlength
  case only =>
    obtain ⟨text, hres, htext⟩ | ⟨front, s, back, inner, x, mac, -, -, -, -, -, hres⟩ |
      ⟨front, s, back, inner, -, -, -, hres⟩ := hends
    · obtain ⟨keys, hkeys, hpeels⟩ := htext
      have hcount : keys.length = ids.length := by
        simpa using (congrArg List.length hkeys).symm
      have hlength := hpeels.length_eq
      rw [List.length_reverse, hcount] at hlength
      exact .inl ⟨text, hres, ⟨keys, hkeys, hpeels⟩, hlength⟩
    · exact .inr (.inl ⟨_, _, hres⟩)
    · exact .inr (.inr ⟨_, _, hres⟩)

/-- A session that is not established is refused by name, as unknown or as not established. -/
theorem pick_of_not_established {s : UInt32} (h : ¬Established r.holdings s) :
    pick (·.remoteMac?) r.holdings s =
      .error (if r.contains s then .notEstablished s else .notFound s) := by
  rw [contains, contains_eq, pick]
  cases hs : r.holdings s with
  | none => rfl
  | some x =>
    have hstate : ¬x.isEstablished = true := fun hx => h ⟨x, hs, of_decide_eq_true hx⟩
    simp [hstate]

end Located

section Runs
variable {ι : Type} [DecidableEq ι] {w₀ w : ι → SessionRegistry} {history : List (Event ι)}

/-- Registries that start without sessions do whatever they do. Then one of them decrypts.

For established sessions a wrong tag is at as many layers as came off before it, too few bytes are
where a peel meets them, and otherwise there is a text. If a session listed is unknown or not
established, the first such is named, whatever the blob is. A blob that a registry sealed for a
list, of which only the sessions behind one face those listed here, peels to that one's layer; and
the error is there, if the two tag keys give its rest different tags. -/
theorem layer_faults (hrun : Runs w₀ history w) (hnew : ∀ i, (w₀ i).sessions = .empty) (i : ι)
    (now : Instant) :
    (∀ ids blob, (∀ id ∈ ids, Established (w i).holdings id) →
      Located (w i).holdings ids blob ((layerDecrypt now ids blob).result (w i)).1) ∧
    (∀ front s back blob, (∀ id ∈ front, Established (w i).holdings id) →
      ¬Established (w i).holdings s →
      ((layerDecrypt now (front ++ s :: back) blob).result (w i)).1 =
        .error (if (w i).contains s then .notEstablished s else .notFound s)) ∧
    ∀ (peer : SessionRegistry) (earlier : Instant) front' a back' payload blob front b back y x mac,
      ((layerEncrypt earlier (front' ++ a :: back') payload).result peer).1 = .ok blob →
      List.Forall₂ (fun a b => Faces peer a (w i) b) back' back →
      (∀ id ∈ front ++ b :: back, Established (w i).holdings id) →
      peer.holdings a = some y → (w i).holdings b = some x → x.remoteMac? = some mac →
      ∃ body, Strips (w i).holdings back blob (Hmac.sign y.localMac body ++ body) ∧
        (Hmac.sign mac body ≠ Hmac.sign y.localMac body →
          ((layerDecrypt now (front ++ b :: back) blob).result (w i)).1 =
            .error (.macMismatch back.length b)) := by
  have hempty : ∀ i id, (w₀ i).holdings id = none := by
    intro i id
    rw [holdings, hnew]
    rfl
  have hkeyed : ∀ id x, (w i).holdings id = some x → Keyed x := fun id x => hrun.keyed hempty
  refine ⟨fun ids blob hids => located now hkeyed hids blob, ?_, ?_⟩
  · intro front s back blob hfront hs
    refine layerDecrypt_of_refused now ?_ (pick_of_not_established hs)
    intro id hid
    obtain ⟨l, hl, -⟩ := pick_of_established hkeyed (hfront id hid)
    exact ⟨l, hl⟩
  · intro peer earlier front' a back' payload blob front b back y x mac hblob hfaces hids hy hx hmac
    obtain ⟨body, keys, hlength, hkeys, hpeels⟩ := layerEncrypt_tag hy hblob
    have hback : Strips (w i).holdings back blob (Hmac.sign y.localMac body ++ body) :=
      ⟨keys, (map_inward?_of_faces hfaces).trans hkeys, hpeels⟩
    refine ⟨body, hback, ?_⟩
    intro htags
    exact layerDecrypt_of_mistagged now hkeyed hids hback hx hmac (mistagged_append hlength htags)

end Runs

theorem exists_mistagged (macKey : Bytes) : ∃ data, Mistagged macKey data := by
  let tag : Bytes := Hmac.sign macKey (List.replicate 16 0)
  obtain ⟨front, hlength, hfront⟩ : ∃ front : Bytes, front.length = Hmac.tagLength ∧ front ≠ tag := by
    by_cases hzero : List.replicate 32 0 = tag
    · refine ⟨List.replicate 32 1, rfl, ?_⟩
      rw [← hzero]
      decide
    · exact ⟨List.replicate 32 0, rfl, hzero⟩
  refine ⟨front ++ List.replicate 16 0, by simp [hlength, overhead, vectorLength], ?_⟩
  rwa [List.take_left' hlength, List.drop_left' hlength]

/-- A blob whose first layer comes off and shows a wrong tag fails at layer one. An empty blob is too
short for the session that its registry peels first. -/
theorem layer_faults_twoRegistries :
    ∃ history w t blob, Runs twoRegistries history w ∧ Established (w true).holdings t ∧
      ((layerDecrypt 0 [t, t] blob).result (w true)).1 = .error (.macMismatch 1 t) ∧
      ((layerDecrypt 0 [t, t] []).result (w true)).1 = .error (.cipher (.tooShort 0 48)) := by
  obtain ⟨history, w, s, t, keyBlock, macBlock, block, hrun, ha, hb⟩ :=
    exists_handshake (show false ≠ true by decide) (twoRegistries_fit false)
      (twoRegistries_fit true) spare_twoRegistries
  obtain ⟨x, y, -, hy, -, hestablished, -, hmac⟩ := (Initiated.agree hrun
    (twoRegistries_fit false).inverts (twoRegistries_fit true).inverts ha hb).forth
  have hheld : (w true).holdings t = some y.untimed := by
    rw [holdings, hy]
    rfl
  have ht : Established (w true).holdings t := ⟨y.untimed, hheld, of_decide_eq_true hestablished⟩
  have hboth : ∀ id ∈ [t, t], Established (w true).holdings id := by
    simpa using ht
  have hkeyed : Keyed y.untimed := hrun.keyed (fun _ _ => rfl) hheld
  -- The layer is put on data with a wrong tag.
  obtain ⟨inner, hinner⟩ := exists_mistagged x.localMac
  obtain ⟨body, -, hwrap⟩ := @wrap_of_valid y.sharedKey x.localMac (List.replicate 16 0) inner
    hkeyed.valid
  have hstrips : Strips (w true).holdings [t] (Hmac.sign x.localMac body ++ body) inner := by
    refine ⟨[(y.sharedKey, x.localMac)], ?_, inner, unwrap_wrap rfl hwrap, rfl⟩
    rw [List.map_singleton, inward?_of_get? hy hestablished hmac]
    rfl
  obtain ⟨hlocated, -⟩ := layer_faults hrun (fun _ => rfl) true 0
  have hwrong := (hlocated [t, t] (Hmac.sign x.localMac body ++ body) hboth).mistagged 1 t
  have hshort := (hlocated [t, t] [] hboth).short 0 48
  exact ⟨history, w, t, _, hrun, ht,
    hwrong.2 ⟨[], [t], inner, y.untimed, x.localMac, rfl, rfl, hstrips, hheld, hmac, hinner⟩,
    hshort.2 ⟨[t], t, [], [], rfl, ⟨[], rfl, rfl⟩, by decide, rfl, rfl⟩⟩

end OnionTunnel.SessionRegistry
