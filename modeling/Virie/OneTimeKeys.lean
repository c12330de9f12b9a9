import Virie.Crypto.Operations

/-! # One-time keys

The two sides of a payment derive the same key from each other's public keys, and only the receiver
has the secret key for it. What is signed with a secret key is accepted for its public key. Of the
images of a key, the node accepts exactly the one without a part of small order. -/

open Foundation Foundation.PrimeOrder

namespace Virie.Curve

variable {Point : Type} [AddCommGroup Point] {C : Curve Point}

/-- A small group of the same shape: its base point has the order 13. -/
def smallCurve : Curve (ZMod 104) where
  l := 13
  base := 8
  geFrombytesVartime b := if 1 ≤ b ∧ b ≤ 104 then some ((b - 1 : Nat) : ZMod 104) else none
  geTobytes P := ZMod.val P + 1
  geFromfeFrombytesVartime h := h
  cnFastHash data := (data.map UInt8.toNat).sum + 3

theorem smallCurve_canonical {b : Nat} {P : ZMod 104}
    (decoded : smallCurve.geFrombytesVartime b = some P) : smallCurve.geTobytes P = b := by
  unfold smallCurve at decoded ⊢
  dsimp only at decoded ⊢
  split at decoded
  · next inRange =>
    cases decoded
    rw [ZMod.val_natCast, Nat.mod_eq_of_lt (by omega)]
    omega
  · cases decoded

theorem smallCurve_cofactor (P : ZMod 104) : 13 • (8 • P) = 0 := by
  rw [← mul_nsmul']
  exact (nsmul_eq_mul _ _).trans (by rw [show ((13 * 8 : Nat) : ZMod 104) = 0 from rfl, zero_mul])

theorem smallCurve_decoded (P : ZMod 104) :
    smallCurve.geFrombytesVartime (smallCurve.geTobytes P) = some P := by
  have below : ZMod.val P < 104 := ZMod.val_lt P
  have value : ((ZMod.val P : Nat) : ZMod 104) = P := ZMod.natCast_zmod_val P
  unfold smallCurve
  dsimp only
  rw [if_pos ⟨by omega, by omega⟩, Nat.add_sub_cancel, value]

theorem smallCurve_laws : smallCurve.Laws where
  prime := by norm_num [smallCurve]
  odd := by decide
  small := by decide
  notZero := by decide
  order := by decide
  cofactor := smallCurve_cofactor
  decoded := smallCurve_decoded
  canonical := smallCurve_canonical
  identity := by decide

/-! ## Scalars -/

section Scalars

theorem Laws.pos (laws : C.Laws) : 0 < C.l := laws.prime.pos

theorem Laws.coprime (laws : C.Laws) : Nat.Coprime 8 C.l := by
  have two : Nat.Coprime 2 C.l := (Nat.coprime_primes Nat.prime_two laws.prime).mpr laws.odd.symm
  exact two.pow_left 3

theorem natCast_emod_toNat (laws : C.Laws) (a : Int) :
    (((a % C.l).toNat : Nat) : ZMod C.l) = a := by
  have positive : (C.l : Int) ≠ 0 := by exact_mod_cast laws.pos.ne'
  have whole : (((a % C.l).toNat : Nat) : Int) = a % C.l :=
    Int.toNat_of_nonneg (Int.emod_nonneg a positive)
  rw [← Int.cast_natCast, whole, ZMod.intCast_mod]

omit [AddCommGroup Point] in
theorem natCast_scAdd (a b : Nat) : ((C.scAdd a b : Nat) : ZMod C.l) = a + b := by
  rw [scAdd, ZMod.natCast_mod, Nat.cast_add]

theorem natCast_scSub (laws : C.Laws) (a b : Nat) :
    ((C.scSub a b : Nat) : ZMod C.l) = a - b := by
  rw [scSub, natCast_emod_toNat laws, Int.cast_sub, Int.cast_natCast, Int.cast_natCast]

theorem natCast_scMulsub (laws : C.Laws) (a b c : Nat) :
    ((C.scMulsub a b c : Nat) : ZMod C.l) = c - a * b := by
  rw [scMulsub, natCast_emod_toNat laws]
  push_cast
  rfl

theorem scAdd_lt (laws : C.Laws) (a b : Nat) : C.scAdd a b < C.l := Nat.mod_lt _ laws.pos

theorem emod_toNat_lt (laws : C.Laws) (a : Int) : (a % C.l).toNat < C.l := by
  have positive : (0 : Int) < C.l := by exact_mod_cast laws.pos
  have below := Int.emod_lt_of_pos a positive
  have above := Int.emod_nonneg a positive.ne'
  omega

theorem scSub_lt (laws : C.Laws) (a b : Nat) : C.scSub a b < C.l := emod_toNat_lt laws _

theorem scMulsub_lt (laws : C.Laws) (a b c : Nat) : C.scMulsub a b c < C.l := emod_toNat_lt laws _

theorem scSub_eq_zero (laws : C.Laws) (a b : Nat) :
    C.scSub a b = 0 ↔ (a : ZMod C.l) = b := by
  have cast := natCast_scSub laws a b
  constructor
  · intro zero
    rw [zero, Nat.cast_zero] at cast
    exact sub_eq_zero.mp cast.symm
  · intro same
    rw [same, sub_self] at cast
    exact Nat.eq_zero_of_dvd_of_lt ((ZMod.natCast_eq_zero_iff _ _).mp cast) (scSub_lt laws a b)

theorem hashToScalar_lt (laws : C.Laws) (data : List UInt8) : C.hashToScalar data < C.l :=
  Nat.mod_lt _ laws.pos

theorem Laws.lt_word (laws : C.Laws) {s : Nat} (canonical : s < C.l) : s < 2 ^ 256 :=
  canonical.trans laws.small

theorem geTobytes_injective (laws : C.Laws) {P Q : Point} (same : C.geTobytes P = C.geTobytes Q) :
    P = Q := by
  have decoded := laws.decoded P
  rw [same, laws.decoded Q] at decoded
  exact (Option.some.inj decoded).symm

end Scalars

/-! ## Matching keys -/

/-- A secret key belongs to its public key. -/
def Matching (C : Curve Point) (pub : PublicKey) (sec : SecretKey) : Prop :=
  C.secretKeyToPublicKey sec = some pub

instance (pub : PublicKey) (sec : SecretKey) : Decidable (C.Matching pub sec) :=
  inferInstanceAs (Decidable (C.secretKeyToPublicKey sec = some pub))

theorem matching_iff {pub : PublicKey} {sec : SecretKey} :
    C.Matching pub sec ↔ sec.val < C.l ∧ pub = ⟨C.geTobytes (sec.val • C.base)⟩ := by
  unfold Matching secretKeyToPublicKey scCheck
  by_cases small : sec.val < C.l
  · rw [if_pos (decide_eq_true small), Option.some.injEq]
    exact ⟨fun same => ⟨small, same.symm⟩, fun both => both.2.symm⟩
  · rw [if_neg (by rwa [decide_eq_true_eq])]
    constructor
    · intro same
      cases same
    · intro both
      exact absurd both.1 small

theorem Matching.decoded (laws : C.Laws) {pub : PublicKey} {sec : SecretKey}
    (matching : C.Matching pub sec) : C.geFrombytesVartime pub.val = some (sec.val • C.base) := by
  rw [(matching_iff.mp matching).2]
  exact laws.decoded _

/-- What either side derives from the other's key. -/
theorem derivation_of_matching (laws : C.Laws) {pub : PublicKey} {sec : SecretKey}
    (matching : C.Matching pub sec) (other : SecretKey) :
    C.generateKeyDerivation pub other = some ⟨C.geTobytes (8 • (other.val • sec.val • C.base))⟩ := by
  rw [generateKeyDerivation, matching.decoded laws]
  rfl

theorem derivation_symmetric (laws : C.Laws) {pub pubToo : PublicKey} {sec secToo : SecretKey}
    (matching : C.Matching pub sec) (matchingToo : C.Matching pubToo secToo) :
    C.generateKeyDerivation pub secToo = C.generateKeyDerivation pubToo sec := by
  rw [derivation_of_matching laws matching, derivation_of_matching laws matchingToo,
    smul_comm secToo.val]

theorem derived_matching (laws : C.Laws) {pub derived : PublicKey} {sec : SecretKey}
    (matching : C.Matching pub sec) {derivation : KeyDerivation} {index : Nat}
    (derives : C.derivePublicKey derivation index pub = some derived) :
    C.Matching derived (C.deriveSecretKey derivation index sec) := by
  rw [derivePublicKey, matching.decoded laws] at derives
  cases derives
  refine matching_iff.mpr ⟨scAdd_lt laws _ _, ?_⟩
  have sum : sec.val • C.base + C.derivationToScalar derivation index • C.base =
      (C.deriveSecretKey derivation index sec).val • C.base := by
    rw [← add_nsmul]
    refine nsmul_congr laws.order ?_
    rw [deriveSecretKey, natCast_scAdd, Nat.cast_add]
  exact congrArg (fun P => (⟨C.geTobytes P⟩ : PublicKey)) sum

/-- A payment to the keys of an address: the sender, with the secret key of the transaction, and
the receiver, with the secret view key, derive the same one-time key, and the key that the receiver
derives from the secret spend key belongs to it. -/
theorem oneTimeKey (laws : C.Laws) {view spend txKey : PublicKey} {viewSec spendSec txSec : SecretKey}
    (viewKeys : C.Matching view viewSec) (spendKeys : C.Matching spend spendSec)
    (txKeys : C.Matching txKey txSec) (index : Nat) :
    ∃ derivation key, C.generateKeyDerivation view txSec = some derivation ∧
      C.generateKeyDerivation txKey viewSec = some derivation ∧
      C.derivePublicKey derivation index spend = some key ∧
      C.Matching key (C.deriveSecretKey derivation index spendSec) := by
  obtain ⟨derivation, derived⟩ : ∃ derivation, C.generateKeyDerivation view txSec = some derivation :=
    ⟨_, derivation_of_matching laws viewKeys txSec⟩
  obtain ⟨key, isKey⟩ : ∃ key, C.derivePublicKey derivation index spend = some key :=
    ⟨_, by rw [derivePublicKey, spendKeys.decoded laws]; rfl⟩
  refine ⟨derivation, key, derived, ?_, isKey, derived_matching laws spendKeys isKey⟩
  rw [← derived, derivation_symmetric laws viewKeys txKeys]

theorem oneTimeKey_smallCurve : ∃ derivation key,
    smallCurve.generateKeyDerivation ⟨25⟩ ⟨5⟩ = some derivation ∧
      smallCurve.generateKeyDerivation ⟨41⟩ ⟨3⟩ = some derivation ∧
      smallCurve.derivePublicKey derivation 300 ⟨33⟩ = some key ∧
      smallCurve.Matching key (smallCurve.deriveSecretKey derivation 300 ⟨4⟩) :=
  oneTimeKey smallCurve_laws (by decide) (by decide) (by decide) 300

/-! ## Signatures -/

/-- What is signed with the secret key of a public key is accepted for it, whatever random scalar
was used, and both scalars of the signature are canonical. -/
theorem checkSignature_generateSignature (laws : C.Laws) {pub : PublicKey} {sec : SecretKey}
    (matching : C.Matching pub sec) (k : Nat) (prefixHash : Hash) :
    C.checkSignature prefixHash pub (C.generateSignature k prefixHash pub sec) = true := by
  let challenge := C.hashToScalar (sComm prefixHash pub (C.geTobytes (k • C.base)))
  let answer := C.scMulsub challenge sec.val k
  have canonical : challenge < C.l := hashToScalar_lt laws _
  have canonicalToo : answer < C.l := scMulsub_lt laws _ _ _
  have isSignature : C.generateSignature k prefixHash pub sec = .ofScalars challenge answer := rfl
  have isChallenge : (Signature.ofScalars challenge answer).c = challenge :=
    Signature.c_ofScalars (laws.lt_word canonical) _
  have isAnswer : (Signature.ofScalars challenge answer).r = answer :=
    Signature.r_ofScalars (laws.lt_word canonical) _
  -- the commitment that the node computes is the one that was hashed
  have opens : challenge • (sec.val • C.base) + answer • C.base = k • C.base :=
    response laws.order (natCast_scMulsub laws challenge sec.val k)
  rw [isSignature, checkSignature, matching.decoded laws, isChallenge, isAnswer]
  dsimp only
  rw [scCheck, scCheck, decide_eq_true canonical, decide_eq_true canonicalToo, opens]
  exact decide_eq_true ((scSub_eq_zero laws _ _).mpr rfl)

theorem checkSignature_generateSignature_smallCurve :
    smallCurve.checkSignature ⟨9⟩ ⟨25⟩ (smallCurve.generateSignature 6 ⟨9⟩ ⟨25⟩ ⟨3⟩) = true :=
  checkSignature_generateSignature smallCurve_laws (by decide) 6 ⟨9⟩

/-! ## Key images -/

theorem validateKeyImage_iff (laws : C.Laws) (ki : KeyImage) :
    C.validateKeyImage ki = true ↔
      ∃ P, C.geFrombytesVartime ki.val = some P ∧ C.l • P = 0 := by
  unfold validateKeyImage scalarmultKey
  rw [decide_eq_true_eq]
  cases decoded : C.geFrombytesVartime ki.val with
  | none =>
    constructor
    · intro zero
      cases zero
    · rintro ⟨P, isSome, _⟩
      cases isSome
  | some P =>
    dsimp only
    rw [← laws.identity]
    constructor
    · exact fun same => ⟨P, rfl, geTobytes_injective laws same⟩
    · rintro ⟨Q, isSome, zero⟩
      cases isSome
      rw [zero]

theorem hashToEc_order (laws : C.Laws) (pub : PublicKey) : C.l • C.hashToEc pub = 0 :=
  laws.cofactor _

theorem generateKeyImage_valid (laws : C.Laws) (pub : PublicKey) (sec : SecretKey) :
    C.validateKeyImage (C.generateKeyImage pub sec) = true := by
  refine (validateKeyImage_iff laws _).mpr ⟨_, laws.decoded _, ?_⟩
  rw [smul_comm, hashToEc_order laws, smul_zero]

/-- The image of a key is accepted, and of the images that differ from it by a point of small order
none other is. -/
theorem validateKeyImage_unique (laws : C.Laws) (pub : PublicKey) (sec : SecretKey) :
    C.validateKeyImage (C.generateKeyImage pub sec) = true ∧
      ∀ T : Point, 8 • T = 0 →
        (C.validateKeyImage ⟨C.geTobytes (sec.val • C.hashToEc pub + T)⟩ = true ↔ T = 0) := by
  have order : C.l • (sec.val • C.hashToEc pub) = 0 := by
    rw [smul_comm, hashToEc_order laws, smul_zero]
  refine ⟨generateKeyImage_valid laws pub sec, fun T small => ?_⟩
  rw [validateKeyImage_iff laws]
  constructor
  · rintro ⟨P, decoded, zero⟩
    rw [laws.decoded] at decoded
    cases decoded
    rw [smul_add, order, zero_add] at zero
    exact eq_of_nsmul laws.coprime zero (smul_zero _) (small.trans (smul_zero 8).symm)
  · rintro rfl
    exact ⟨_, laws.decoded _, by rw [add_zero, order]⟩

theorem validateKeyImage_unique_smallCurve :
    smallCurve.validateKeyImage (smallCurve.generateKeyImage ⟨25⟩ ⟨3⟩) = true ∧
      (smallCurve.validateKeyImage
        ⟨smallCurve.geTobytes (3 • smallCurve.hashToEc ⟨25⟩ + (13 : ZMod 104))⟩ = true ↔
          (13 : ZMod 104) = 0) :=
  have images := validateKeyImage_unique smallCurve_laws ⟨25⟩ ⟨3⟩
  ⟨images.1, images.2 13 (by decide)⟩

/-! ## The key functions of a participant -/

/-- The operations on keys, with a random scalar for each signature. -/
def signing (C : Curve Point) (nonce : Hash → PublicKey → SecretKey → Nat) : Signing where
  generateKeyDerivation := C.generateKeyDerivation
  derivePublicKey := C.derivePublicKey
  deriveSecretKey := C.deriveSecretKey
  secretKeyToPublicKey := C.secretKeyToPublicKey
  generateSignature prefixHash pub sec :=
    C.generateSignature (nonce prefixHash pub sec) prefixHash pub sec

/-- Whatever the random scalars are, the one-time keys of an account match when its keys do, as is
assumed of the key functions a participant signs with. -/
theorem signing_derives (laws : C.Laws) (nonce : Hash → PublicKey → SecretKey → Nat)
    {keys : AccountKeys} (own : keys.Own (C.signing nonce)) {txPublicKey : PublicKey}
    {index : Nat} {pair : Keypair}
    (derives : (C.signing nonce).deriveEphemeralKeyHelper keys txPublicKey index = some pair) :
    (C.signing nonce).Matching pair.pub pair.sec := by
  obtain ⟨derivation, _, rest⟩ := Option.bind_eq_some_iff.mp derives
  obtain ⟨pub, isPub, same⟩ := Option.bind_eq_some_iff.mp rest
  cases same
  exact derived_matching laws own isPub

end Virie.Curve
