import OnionTunnel.Proofs.Hostkey.Canonical
import OnionTunnel.Proofs.Hostkey.Reloading

/-!
# Key files name one hostkey

A file that holds the text of a private key, the text of its public half or the hostkey itself names
the same hostkey, since no file is taken for one of another kind. A hostkey is no text: in the
identifier of its algorithm, a byte that goes on a character comes right after one below 128. The
text of a public key has no capital E in front of a space, which the words of a private key's file
have: its labels and dashes have none, and its lines have no space at all.
-/

namespace OnionTunnel

/-! ### Texts without the words of a private key -/

/-- Neighbours that are not a capital E and a space. -/
def NoWordEnd (x y : UInt8) : Prop := x = 69 → y ≠ 32

instance (x y : UInt8) : Decidable (NoWordEnd x y) := inferInstanceAs (Decidable (x = 69 → y ≠ 32))

/-- In the words of a private key's file, a capital E stands in front of a space. -/
theorem not_privateMark_of_isChain {b : Bytes} (h : b.IsChain NoWordEnd) : ¬privateMark <:+: b := by
  intro hmark
  have hpair : [69, 32] <:+: privateMark := by decide
  have hchain := List.IsChain.infix h (hpair.trans hmark)
  exact List.isChain_pair.1 hchain rfl rfl

namespace Pem

/-- A text has no space after a capital E if its opening and closing lines have none: the lines
between have no space at all. -/
theorem isChain_encode {p : Pem} (hopening : (opening ++ p.label ++ dashes).IsChain NoWordEnd)
    (hclosing : (closing ++ p.label ++ dashes ++ [10]).IsChain NoWordEnd) :
    (encode p).IsChain NoWordEnd := by
  have hspace : ∀ y ∈ 10 :: wrap (Base64.encode p.content), y ≠ 32 := by
    refine List.forall_mem_cons.2 ⟨by decide, ?_⟩
    rintro _ hy rfl
    obtain hvisible | hfeed := visible_of_mem_wrap_encode hy
    · exact absurd hvisible.1 (by decide)
    · exact absurd hfeed (by decide)
  have hlines : (10 :: wrap (Base64.encode p.content)).IsChain NoWordEnd := by
    apply List.Pairwise.isChain
    apply List.pairwise_of_forall_mem_list
    intro _ _ y hy _
    exact hspace y hy
  have hdash : (closing ++ p.label ++ dashes ++ [10]).head? = some 45 := rfl
  have hsplit : encode p = opening ++ p.label ++ dashes ++
      (10 :: wrap (Base64.encode p.content) ++ (closing ++ p.label ++ dashes ++ [10])) := by
    simp only [encode, List.append_assoc, List.cons_append]
  rw [hsplit]
  refine List.isChain_append.2 ⟨hopening, List.isChain_append.2 ⟨hlines, hclosing, ?_⟩, ?_⟩
  · rintro _ _ y hy -
    obtain rfl := Option.some.inj (hdash.symm.trans hy)
    decide
  · rintro _ _ y hy -
    exact hspace y (List.mem_cons.2 (.inl (Option.some.inj hy).symm))

end Pem

namespace Hostkey

variable {content : Bytes}

/-! ### Kinds of files -/

/-- A text with the words of a private key is read as one. -/
theorem ofFile_of_privateMark (htext : (Bytes.toText? content).isSome)
    (hmark : privateMark <:+: content) :
    ofFile content = (Keypair.ofPem content).map Keypair.hostkey := by
  rw [ofFile, if_pos (by rw [htext, Bytes.contains_iff.2 hmark]; rfl)]
  cases Keypair.ofPem content <;> rfl

/-- Any other text with the words of a key is read as a public key. -/
theorem ofFile_of_textMark (htext : (Bytes.toText? content).isSome)
    (hprivate : ¬privateMark <:+: content) (hmark : textMark <:+: content) :
    ofFile content = (ofPem content).map encode := by
  have hnot : Bytes.contains privateMark content = false := by
    rwa [← Bool.not_eq_true, Bytes.contains_iff]
  rw [ofFile, if_neg (by simp [hnot]), if_pos (by rw [htext, Bytes.contains_iff.2 hmark]; rfl)]
  cases ofPem content <;> rfl

/-- All else, what is no text included, is read as a hostkey. -/
theorem ofFile_of_unmarked (h : (Bytes.toText? content).isSome →
    ¬privateMark <:+: content ∧ ¬textMark <:+: content) :
    ofFile content = (parse content).map fun _ => content := by
  have hprivate : ¬((Bytes.toText? content).isSome && Bytes.contains privateMark content) := by
    rw [Bool.and_eq_true, Bytes.contains_iff]
    exact fun hboth => (h hboth.1).1 hboth.2
  have hmark : ¬((Bytes.toText? content).isSome && Bytes.contains textMark content) := by
    rw [Bool.and_eq_true, Bytes.contains_iff]
    exact fun hboth => (h hboth.1).2 hboth.2
  rw [ofFile, if_neg hprivate, if_neg hmark]
  cases parse content <;> rfl

/-- A public key that a text holds is one that others take. -/
theorem presented_of_ofPem {key : Rsa.PublicKey} (h : ofPem content = .ok key) :
    key.presentedFault? = none := by
  unfold ofPem at h
  split at h
  · cases h
  · split_ifs at h
    exact (parse_eq_ok_iff.1 h).2

theorem exists_of_map_eq_ok {α : Type} {result : Except CipherError α} {f : α → Bytes}
    {bytes : Bytes} (h : result.map f = .ok bytes) : ∃ a, result = .ok a ∧ f a = bytes := by
  cases result with
  | error => cases h
  | ok a => exact ⟨a, rfl, Except.ok.inj h⟩

/-- A file that is read names the hostkey of the keypair that its text holds, or one that others
take. -/
theorem ofFile_cases {bytes : Bytes} (h : ofFile content = .ok bytes) :
    (∃ owner, (Bytes.toText? content).isSome ∧ Keypair.ofPem content = .ok owner ∧
      bytes = owner.hostkey) ∨ ∃ key, parse bytes = .ok key := by
  by_cases hunmarked : (Bytes.toText? content).isSome →
      ¬privateMark <:+: content ∧ ¬textMark <:+: content
  · rw [ofFile_of_unmarked hunmarked] at h
    obtain ⟨key, hkey, rfl⟩ := exists_of_map_eq_ok h
    exact .inr ⟨key, hkey⟩
  · obtain ⟨htext, hmarked⟩ := Classical.not_imp.1 hunmarked
    by_cases hprivate : privateMark <:+: content
    · rw [ofFile_of_privateMark htext hprivate] at h
      obtain ⟨owner, howner, rfl⟩ := exists_of_map_eq_ok h
      exact .inl ⟨owner, htext, howner, rfl⟩
    · have hmark : textMark <:+: content := by
        by_contra hmark
        exact hmarked ⟨hprivate, hmark⟩
      rw [ofFile_of_textMark htext hprivate hmark] at h
      obtain ⟨key, hkey, rfl⟩ := exists_of_map_eq_ok h
      exact .inr ⟨key, parse_encode (presented_of_ofPem hkey)⟩

/-! ### Hostkeys and public keys -/

variable {k : Rsa.PublicKey}

/-- No hostkey is a text. -/
theorem toText?_encode (k : Rsa.PublicKey) : Bytes.toText? (encode k) = none := by
  have hpair : [0x2a, 0x86] <:+: algorithm := by decide
  have halgorithm : algorithm <:+: encode k := by
    rw [encode, Der.sequence, Der.element, ← List.cons_append, ← List.append_assoc]
    exact List.infix_append _ _ _
  exact Bytes.toText?_eq_none (hpair.trans halgorithm) (by decide) ⟨by decide, by decide⟩

/-- The text of a public key is without the words of a private key. -/
theorem not_privateMark_infix_toPem (k : Rsa.PublicKey) : ¬privateMark <:+: toPem k := by
  have hopening : (Pem.opening ++ label ++ Pem.dashes).IsChain NoWordEnd := by decide +kernel
  have hclosing : (Pem.closing ++ label ++ Pem.dashes ++ [10]).IsChain NoWordEnd := by
    decide +kernel
  exact not_privateMark_of_isChain (Pem.isChain_encode hopening hclosing)

theorem isSome_toText?_toPem (k : Rsa.PublicKey) : (Bytes.toText? (toPem k)).isSome := by
  have hascii : ∀ x ∈ label, x < 128 := by decide +kernel
  exact Pem.isSome_toText?_encode hascii

/-- The text of a public key that others take is read as the key. -/
theorem ofPem_toPem (h : k.presentedFault? = none) : ofPem (toPem k) = .ok k := by
  have hlabel : 45 ∉ label := by decide
  have hblock := Pem.decode?_encode (p := ⟨label, encode k⟩) hlabel (List.cons_ne_nil _ _)
  rw [ofPem, toPem, hblock]
  exact (if_pos rfl).trans (parse_encode h)

theorem ofFile_toPem (h : k.presentedFault? = none) : ofFile (toPem k) = .ok (encode k) := by
  have hmark : textMark <:+: toPem k := by
    have hopening : textMark <:+: Pem.opening := by decide
    rw [toPem, Pem.encode_eq]
    exact hopening.trans (List.prefix_append _ _).isInfix
  rw [ofFile_of_textMark (isSome_toText?_toPem k) (not_privateMark_infix_toPem k) hmark,
    ofPem_toPem h]
  rfl

theorem ofFile_encode (h : k.presentedFault? = none) : ofFile (encode k) = .ok (encode k) := by
  have hnone := toText?_encode k
  rw [ofFile_of_unmarked (by simp [hnone]), parse_encode h]
  rfl

/-! ### Keypairs -/

/-- A text with the numbers of a private key names the hostkey of its keypair. -/
theorem ofFile_textWith (k : Keypair) (exponent1 exponent2 coefficient : Nat) :
    ofFile (k.textWith exponent1 exponent2 coefficient) = .ok k.hostkey := by
  have hlabel : privateMark <:+: privateLabel := by decide
  have hmark : privateMark <:+: k.textWith exponent1 exponent2 coefficient :=
    hlabel.trans (Pem.label_infix_encode ⟨privateLabel, _⟩)
  rw [ofFile_of_privateMark (k.isSome_toText?_textWith _ _ _) hmark, Keypair.ofPem_textWith]
  rfl

/-- The files that name a keypair's peer name one hostkey.

The text of the private key, the text of the public half and the hostkey itself are each read as the
hostkey, if the factors are different primes and the modulus has at most 4096 bits. Whatever a file
holds, what is read is a hostkey that others take, except for that of a private key in a text whose
modulus is longer. No hostkey that is taken is a text, and no public half's text has the words of a
private key. -/
theorem files_agree :
    (∀ k : Keypair, k.key.prime1.Prime → k.key.prime2.Prime → k.key.prime1 ≠ k.key.prime2 →
      k.key.modulus < 2 ^ 4096 →
      (∃ text, k.toPem = .ok text ∧ ofFile text = .ok k.hostkey) ∧
      ofFile k.publicPem = .ok k.hostkey ∧ ofFile k.hostkey = .ok k.hostkey) ∧
    (∀ content bytes, ofFile content = .ok bytes →
      (∃ key, parse bytes = .ok key) ∨
      ∃ owner, (Bytes.toText? content).isSome ∧ Keypair.ofPem content = .ok owner ∧
        bytes = owner.hostkey ∧ 2 ^ 4096 ≤ owner.key.modulus) ∧
    (∀ der key, parse der = .ok key → Bytes.toText? der = none) ∧
    ∀ k : Keypair, Bytes.contains privateMark k.publicPem = false := by
  refine ⟨?_, ?_, ?_, ?_⟩
  · intro k hp hq hne hshort
    obtain ⟨key, hkey⟩ := k.hostkey_taken_iff.2 hshort
    obtain ⟨hsame, hpresented⟩ := parse_eq_ok_iff.1 hkey
    obtain rfl := encode_injective hsame
    obtain ⟨coefficient, hpem⟩ := Keypair.exists_toPem hp hq hne
    exact ⟨⟨_, hpem, ofFile_textWith k _ _ _⟩, ofFile_toPem hpresented, ofFile_encode hpresented⟩
  · intro content bytes h
    obtain ⟨owner, htext, howner, rfl⟩ | hkey := ofFile_cases h
    · by_cases hshort : owner.key.modulus < 2 ^ 4096
      · exact .inl (owner.hostkey_taken_iff.2 hshort)
      · exact .inr ⟨owner, htext, howner, rfl, Nat.not_lt.1 hshort⟩
    · exact .inl hkey
  · intro der key h
    rw [(parse_eq_ok_iff.1 h).1]
    exact toText?_encode key
  · intro k
    rw [← Bool.not_eq_true, Bytes.contains_iff]
    exact not_privateMark_infix_toPem _

/-- The three files of a keypair with a short modulus. -/
theorem files_agree_elevenThirteen :
    (∃ text, Keypair.ofElevenThirteen.toPem = .ok text ∧
      ofFile text = .ok Keypair.ofElevenThirteen.hostkey) ∧
    ofFile Keypair.ofElevenThirteen.publicPem = .ok Keypair.ofElevenThirteen.hostkey ∧
    ofFile Keypair.ofElevenThirteen.hostkey = .ok Keypair.ofElevenThirteen.hostkey := by
  have hp : Nat.Prime 11 := by norm_num
  have hq : Nat.Prime 13 := by norm_num
  have hbits : Bytes.bitLength 143 ≤ 4096 := by decide
  exact files_agree.1 Keypair.ofElevenThirteen hp hq (by decide) (Bytes.bitLength_le_iff.1 hbits)

end Hostkey

end OnionTunnel
