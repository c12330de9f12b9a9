import Virie.OneTimeKeys

/-! # Ring signatures

Whoever has the secret key of one member of a ring makes a signature that is accepted, wherever the
member stands and whatever the other keys are. Whoever can answer two challenges for the same
commitments has the secret key of a member, and the key image is that of this member and no
other. -/

open Foundation Foundation.PrimeOrder

namespace Virie.Curve

variable {Point : Type} [AddCommGroup Point] {C : Curve Point}

/-! ## What is signed is accepted -/

section Complete

variable {image : Point} {k secIndex : Nat} {random : Nat → Nat × Nat}

/-- Random scalars are canonical. -/
def Canonical (C : Curve Point) (random : Nat → Nat × Nat) : Prop :=
  ∀ i, (random i).1 < C.l ∧ (random i).2 < C.l

/-- The signature of another member is one step of both loops. -/
theorem checkLoop_cons {pub : PublicKey} {pubs : List PublicKey} {point : Point} {sig : Signature}
    {sigs : List Signature} {ab : RsComm} {sum total : Nat}
    (decoded : C.geFrombytesVartime pub.val = some point) (canonical : sig.c < C.l)
    (canonicalToo : sig.r < C.l) (rest : C.checkLoop image pubs sigs (C.scAdd sum sig.c) =
      some (ab, total)) :
    C.checkLoop image (pub :: pubs) (sig :: sigs) sum =
      some (C.memberComm image pub point sig :: ab, total) := by
  rw [checkLoop, scCheck, scCheck, decide_eq_true canonical, decide_eq_true canonicalToo, decoded]
  change (C.checkLoop image pubs sigs (C.scAdd sum sig.c)).bind _ = _
  rw [rest]
  rfl

/-- Behind the real member the signer computes what the node computes. -/
theorem generateLoop_behind (laws : C.Laws) (canonical : C.Canonical random)
    {pubs : List PublicKey} (points : ∀ pub ∈ pubs, C.checkKey pub = true) {i : Nat}
    (behind : secIndex < i) (sum : Nat) :
    ∃ ab sigs total, C.generateLoop image k random secIndex i pubs sum = some (ab, sigs, total) ∧
      ∀ start, ∃ last, C.checkLoop image pubs sigs start = some (ab, last) ∧
        (last : ZMod C.l) = start + (total - sum) := by
  induction pubs generalizing i sum with
  | nil =>
    refine ⟨[], [], sum, rfl, fun start => ⟨start, rfl, ?_⟩⟩
    rw [sub_self, add_zero]
  | cons pub pubs ih =>
    obtain ⟨point, decoded⟩ := Option.isSome_iff_exists.mp (points pub (.head _))
    obtain ⟨challenge, answer⟩ := canonical i
    let sig := Signature.ofScalars (random i).1 (random i).2
    have isChallenge : sig.c = (random i).1 := Signature.c_ofScalars (laws.lt_word challenge) _
    have isAnswer : sig.r = (random i).2 := Signature.r_ofScalars (laws.lt_word challenge) _
    obtain ⟨ab, sigs, total, generated, checked⟩ := ih
      (fun other member => points other (.tail _ member)) (Nat.lt_succ_of_lt behind)
      (C.scAdd sum sig.c)
    refine ⟨C.memberComm image pub point sig :: ab, sig :: sigs, total, ?_, fun start => ?_⟩
    · rw [generateLoop, if_neg behind.ne', decoded]
      change (C.generateLoop image k random secIndex (i + 1) pubs (C.scAdd sum sig.c)).bind _ = _
      rw [generated]
      rfl
    · obtain ⟨last, isLast, value⟩ := checked (C.scAdd start sig.c)
      refine ⟨last, checkLoop_cons decoded (by rwa [isChallenge]) (by rwa [isAnswer]) isLast, ?_⟩
      rw [value, natCast_scAdd, natCast_scAdd]
      ring

/-- Up to the real member and on: with any scalars that open its commitments in its place. -/
theorem generateLoop_real (laws : C.Laws) (canonical : C.Canonical random)
    {pubs : List PublicKey} (points : ∀ pub ∈ pubs, C.checkKey pub = true) {i : Nat}
    (before : i ≤ secIndex) {pub : PublicKey} (real : pubs[secIndex - i]? = some pub)
    {sec : SecretKey} (matching : C.Matching pub sec)
    (isImage : image = sec.val • C.hashToEc pub) (sum : Nat) :
    ∃ ab sigs total, C.generateLoop image k random secIndex i pubs sum = some (ab, sigs, total) ∧
      ∀ challenge answer start, challenge < C.l → answer < C.l →
        (answer : ZMod C.l) = k - challenge * sec.val →
        ∃ last, C.checkLoop image pubs
            (sigs.set (secIndex - i) (.ofScalars challenge answer)) start = some (ab, last) ∧
          (last : ZMod C.l) = start + (total - sum) + challenge := by
  induction pubs generalizing i sum with
  | nil => cases real
  | cons first pubs ih =>
    by_cases here : i = secIndex
    · subst here
      rw [Nat.sub_self, List.getElem?_cons_zero, Option.some.injEq] at real
      subst real
      obtain ⟨ab, sigs, total, generated, checked⟩ := generateLoop_behind laws canonical
        (fun other member => points other (.tail _ member)) (Nat.lt_succ_self i) sum
      refine ⟨(C.geTobytes (k • C.base), C.geTobytes (k • C.hashToEc first)) :: ab,
        nullSig :: sigs, total, ?_, fun challenge answer start small smallToo answers => ?_⟩
      · rw [generateLoop, if_pos rfl]
        change (C.generateLoop image k random i (i + 1) pubs sum).bind _ = _
        rw [generated]
        rfl
      · let sig := Signature.ofScalars challenge answer
        have isChallenge : sig.c = challenge := Signature.c_ofScalars (laws.lt_word small) _
        have isAnswer : sig.r = answer := Signature.r_ofScalars (laws.lt_word small) _
        have opens : C.memberComm image first (sec.val • C.base) sig =
            (C.geTobytes (k • C.base), C.geTobytes (k • C.hashToEc first)) := by
          rw [memberComm, isChallenge, isAnswer, response laws.order answers, isImage,
            add_comm (answer • _), response (hashToEc_order laws first) answers]
        obtain ⟨last, isLast, value⟩ := checked (C.scAdd start challenge)
        refine ⟨last, ?_, ?_⟩
        · rw [Nat.sub_self, List.set_cons_zero, ← opens]
          refine checkLoop_cons (matching.decoded laws) (by rwa [isChallenge])
            (by rwa [isAnswer]) ?_
          rw [isChallenge]
          exact isLast
        · rw [value, natCast_scAdd]
          ring
    · have less : i < secIndex := lt_of_le_of_ne before here
      obtain ⟨shift, isShift⟩ : ∃ shift, secIndex - i = shift + 1 ∧ secIndex - (i + 1) = shift :=
        ⟨secIndex - (i + 1), by omega, rfl⟩
      rw [isShift.1, List.getElem?_cons_succ, ← isShift.2] at real
      obtain ⟨point, decoded⟩ := Option.isSome_iff_exists.mp (points first (.head _))
      obtain ⟨challengeSmall, answerSmall⟩ := canonical i
      let sig := Signature.ofScalars (random i).1 (random i).2
      have isChallenge : sig.c = (random i).1 :=
        Signature.c_ofScalars (laws.lt_word challengeSmall) _
      have isAnswer : sig.r = (random i).2 := Signature.r_ofScalars (laws.lt_word challengeSmall) _
      obtain ⟨ab, sigs, total, generated, checked⟩ := ih
        (fun other member => points other (.tail _ member)) less real (C.scAdd sum sig.c)
      refine ⟨C.memberComm image first point sig :: ab, sig :: sigs, total, ?_,
        fun challenge answer start small smallToo answers => ?_⟩
      · rw [generateLoop, if_neg here, decoded]
        change (C.generateLoop image k random secIndex (i + 1) pubs (C.scAdd sum sig.c)).bind _ = _
        rw [generated]
        rfl
      · obtain ⟨last, isLast, value⟩ :=
          checked challenge answer (C.scAdd start sig.c) small smallToo answers
        refine ⟨last, ?_, ?_⟩
        · rw [isShift.1, List.set_cons_succ, ← isShift.2]
          exact checkLoop_cons decoded (by rwa [isChallenge]) (by rwa [isAnswer]) isLast
        · rw [value, natCast_scAdd, natCast_scAdd]
          ring

end Complete

theorem generateRingSignature_accepted (laws : C.Laws) {random : Nat → Nat × Nat}
    (canonical : C.Canonical random) {pubs : List PublicKey}
    (points : ∀ pub ∈ pubs, C.checkKey pub = true) {secIndex : Nat} {pub : PublicKey}
    (real : pubs[secIndex]? = some pub) {sec : SecretKey} (matching : C.Matching pub sec) (k : Nat)
    (prefixHash : Hash) :
    ∃ sig, C.generateRingSignature k random prefixHash (C.generateKeyImage pub sec) pubs sec
        secIndex = some sig ∧
      C.checkRingSignature prefixHash (C.generateKeyImage pub sec) pubs sig = true := by
  have isImage : C.geFrombytesVartime (C.generateKeyImage pub sec).val =
      some (sec.val • C.hashToEc pub) := laws.decoded _
  obtain ⟨ab, sigs, total, generated, checked⟩ := generateLoop_real (k := k) laws canonical points
    (Nat.zero_le secIndex) real matching rfl 0
  let h := C.hashToScalar (rsComm prefixHash ab)
  let challenge := C.scSub h total
  let answer := C.scMulsub challenge sec.val k
  obtain ⟨last, isLast, value⟩ := checked challenge answer 0 (scSub_lt laws _ _)
    (scMulsub_lt laws _ _ _) (natCast_scMulsub laws _ _ _)
  refine ⟨sigs.set secIndex (.ofScalars challenge answer), ?_, ?_⟩
  · rw [generateRingSignature, isImage]
    change (C.generateLoop _ k random secIndex 0 pubs 0).bind _ = _
    rw [generated]
    rfl
  · -- the challenges add up to the hash
    have sum : (h : ZMod C.l) = last := by
      rw [value, natCast_scSub laws]
      push_cast
      ring
    rw [Nat.sub_zero] at isLast
    rw [checkRingSignature, isImage]
    dsimp only
    rw [isLast]
    exact decide_eq_true ((scSub_eq_zero laws _ _).mpr sum)

/-- A ring signature with the secret key of a member is made and is accepted, and so is its image,
whatever the other members and the random scalars are. -/
theorem checkRingSignature_generateRingSignature (laws : C.Laws) {random : Nat → Nat × Nat}
    (canonical : C.Canonical random) {pubs : List PublicKey}
    (points : ∀ pub ∈ pubs, C.checkKey pub = true) {secIndex : Nat} {pub : PublicKey}
    (real : pubs[secIndex]? = some pub) {sec : SecretKey} (matching : C.Matching pub sec) (k : Nat)
    (prefixHash : Hash) :
    C.validateKeyImage (C.generateKeyImage pub sec) = true ∧
      ∃ sig, C.generateRingSignature k random prefixHash (C.generateKeyImage pub sec) pubs sec
          secIndex = some sig ∧
        C.checkRingSignature prefixHash (C.generateKeyImage pub sec) pubs sig = true :=
  ⟨generateKeyImage_valid laws pub sec,
    generateRingSignature_accepted laws canonical points real matching k prefixHash⟩

theorem checkRingSignature_generateRingSignature_smallCurve :
    ∃ sig, smallCurve.generateRingSignature 7 (fun i => (i % 5, i % 5 + 2)) ⟨5⟩
        (smallCurve.generateKeyImage ⟨25⟩ ⟨3⟩) [⟨4⟩, ⟨25⟩, ⟨100⟩] ⟨3⟩ 1 = some sig ∧
      smallCurve.checkRingSignature ⟨5⟩ (smallCurve.generateKeyImage ⟨25⟩ ⟨3⟩)
        [⟨4⟩, ⟨25⟩, ⟨100⟩] sig = true := by
  have canonical : smallCurve.Canonical fun i => (i % 5, i % 5 + 2) := fun i =>
    ⟨(Nat.mod_lt i (by decide : 0 < 5)).trans (by decide),
      (Nat.add_lt_add_right (Nat.mod_lt i (by decide : 0 < 5)) 2).trans (by decide)⟩
  exact (checkRingSignature_generateRingSignature smallCurve_laws canonical (by decide) rfl
    (by decide) 7 ⟨5⟩).2

/-! ## What is accepted is known -/

/-- The curve with another hash function. -/
def withHash (C : Curve Point) (other : List UInt8 → Nat) : Curve Point :=
  { C with cnFastHash := other }

/-- The commitments of a ring signature, as the node computes them. -/
def commitments (C : Curve Point) (image : KeyImage) (pubs : List PublicKey)
    (sig : List Signature) : Option RsComm := do
  let imageUnp ← C.geFrombytesVartime image.val
  let (ab, _) ← C.checkLoop imageUnp pubs sig 0
  pure ab

/-- A secret key for a public key, of which a part of small order is left out. -/
def Owns (C : Curve Point) (pub : PublicKey) (sec : SecretKey) : Prop :=
  sec.val < C.l ∧
    ∃ point, C.geFrombytesVartime pub.val = some point ∧ 8 • point = sec.val • (8 • C.base)

theorem eight_base_ne_zero (laws : C.Laws) : 8 • C.base ≠ 0 := by
  intro zero
  exact laws.notZero (eq_of_nsmul laws.coprime laws.order (smul_zero _)
    (zero.trans (smul_zero 8).symm))

theorem Owns.unique (laws : C.Laws) {pub : PublicKey} {sec other : SecretKey}
    (owns : C.Owns pub sec) (ownsToo : C.Owns pub other) : sec = other := by
  obtain ⟨small, point, decoded, same⟩ := owns
  obtain ⟨smallToo, pointToo, decodedToo, sameToo⟩ := ownsToo
  rw [decoded] at decodedToo
  cases decodedToo
  have order : C.l • (8 • C.base) = 0 := laws.cofactor _
  have equal := factor_unique laws.prime order (eight_base_ne_zero laws) small smallToo
    (same.symm.trans sameToo)
  cases sec
  cases other
  exact congrArg SecretKey.mk equal

theorem checkLoop_of_cons {image : Point} {pub : PublicKey} {pubs : List PublicKey}
    {sigs : List Signature} {sum total : Nat} {ab : RsComm}
    (checked : C.checkLoop image (pub :: pubs) sigs sum = some (ab, total)) :
    ∃ sig rest point others, sigs = sig :: rest ∧ C.geFrombytesVartime pub.val = some point ∧
      C.checkLoop image pubs rest (C.scAdd sum sig.c) = some (others, total) ∧
      ab = C.memberComm image pub point sig :: others := by
  cases sigs with
  | nil => cases checked
  | cons sig rest =>
    rw [checkLoop] at checked
    split at checked
    · cases checked
    · obtain ⟨point, decoded, checked⟩ := Option.bind_eq_some_iff.mp checked
      obtain ⟨⟨others, last⟩, isRest, checked⟩ := Option.bind_eq_some_iff.mp checked
      cases checked
      exact ⟨sig, rest, point, others, rfl, decoded, isRest, rfl⟩

/-- Where two signatures have the same commitments and different sums, some member has different
challenges. -/
theorem checkLoop_differ {image : Point} {pubs : List PublicKey}
    {sigs sigsToo : List Signature} {sum sumToo total totalToo : Nat} {ab : RsComm}
    (checked : C.checkLoop image pubs sigs sum = some (ab, total))
    (checkedToo : C.checkLoop image pubs sigsToo sumToo = some (ab, totalToo))
    (differ : (total - sum : ZMod C.l) ≠ totalToo - sumToo) :
    ∃ pub ∈ pubs, ∃ (point : Point) (sig sigToo : Signature),
      C.geFrombytesVartime pub.val = some point ∧ (sig.c : ZMod C.l) ≠ sigToo.c ∧
      C.memberComm image pub point sig = C.memberComm image pub point sigToo := by
  induction pubs generalizing sigs sigsToo sum sumToo ab with
  | nil =>
    cases checked
    cases checkedToo
    exact absurd (by rw [sub_self, sub_self]) differ
  | cons pub pubs ih =>
    obtain ⟨sig, rest, point, others, rfl, decoded, isRest, rfl⟩ := checkLoop_of_cons checked
    obtain ⟨sigToo, restToo, pointToo, othersToo, rfl, decodedToo, isRestToo, same⟩ :=
      checkLoop_of_cons checkedToo
    rw [decoded] at decodedToo
    cases decodedToo
    obtain ⟨sameHere, rfl⟩ := List.cons.inj same
    by_cases here : (sig.c : ZMod C.l) = sigToo.c
    · obtain ⟨other, member, found⟩ := ih isRest isRestToo (by
        rw [natCast_scAdd, natCast_scAdd, here, ← sub_sub, ← sub_sub]
        exact fun equal => differ (sub_left_injective equal))
      exact ⟨other, .tail _ member, found⟩
    · exact ⟨pub, .head _, point, sig, sigToo, decoded, here, sameHere⟩

/-- Two openings of the commitments of one member give its secret key, of which the image is. -/
theorem memberComm_extracts (laws : C.Laws) {image point : Point} (order : C.l • image = 0)
    {pub : PublicKey} (decoded : C.geFrombytesVartime pub.val = some point)
    {sig sigToo : Signature} (differ : (sig.c : ZMod C.l) ≠ sigToo.c)
    (same : C.memberComm image pub point sig = C.memberComm image pub point sigToo) :
    ∃ sec : SecretKey, C.Owns pub sec ∧ image = sec.val • C.hashToEc pub := by
  have sameA := geTobytes_injective laws (congrArg Prod.fst same)
  have sameB := geTobytes_injective laws (congrArg Prod.snd same)
  obtain ⟨x, small, factor⟩ := exists_factor laws.prime sig.r sigToo.r differ
  have baseOrder : C.l • (8 • C.base) = 0 := laws.cofactor _
  have eight (s : Signature) : 8 • (s.c • point + s.r • C.base) =
      s.c • (8 • point) + s.r • (8 • C.base) := by
    rw [smul_add, smul_comm 8 s.c, smul_comm 8 s.r]
  refine ⟨⟨x⟩, ⟨small, point, decoded, ?_⟩, ?_⟩
  · refine factor _ _ baseOrder (laws.cofactor point) ?_
    rw [← eight, ← eight, sameA]
  · refine factor _ _ (hashToEc_order laws pub) order ?_
    rw [add_comm, sameB, add_comm]

theorem checkLoop_withHash {other : List UInt8 → Nat} {image : Point} {pubs : List PublicKey}
    (sameKeys : ∀ pub ∈ pubs, (C.withHash other).hashToEc pub = C.hashToEc pub)
    (sigs : List Signature) (sum : Nat) :
    (C.withHash other).checkLoop image pubs sigs sum = C.checkLoop image pubs sigs sum := by
  induction pubs generalizing sigs sum with
  | nil => rfl
  | cons pub pubs ih =>
    cases sigs with
    | nil => rfl
    | cons sig sigs =>
      have rest := ih (fun other member => sameKeys other (.tail _ member)) sigs (C.scAdd sum sig.c)
      have member (point : Point) : (C.withHash other).memberComm image pub point sig =
          C.memberComm image pub point sig := by
        rw [memberComm, sameKeys pub (.head _)]
        rfl
      have sums : (C.withHash other).scAdd sum sig.c = C.scAdd sum sig.c := rfl
      rw [checkLoop, checkLoop, sums, rest]
      simp only [member]
      rfl

/-- Two accepted ring signatures with the same commitments, under hash functions that agree on the
keys and not on the commitments, belong to someone who has the secret key of a member. The image
is the image of that key, of which there is only one. -/
theorem checkRingSignature_extracts (laws : C.Laws) {other : List UInt8 → Nat}
    {prefixHash : Hash} {image : KeyImage} {pubs : List PublicKey} {sig sigToo : List Signature}
    (sameKeys : ∀ pub ∈ pubs, other (Codec.writeUint 32 pub.val) =
      C.cnFastHash (Codec.writeUint 32 pub.val))
    (valid : C.validateKeyImage image = true)
    (accepted : C.checkRingSignature prefixHash image pubs sig = true)
    (acceptedToo : (C.withHash other).checkRingSignature prefixHash image pubs sigToo = true)
    (sameComm : C.commitments image pubs sig = C.commitments image pubs sigToo)
    (differ : ∀ ab ∈ C.commitments image pubs sig,
      C.hashToScalar (rsComm prefixHash ab) ≠ (C.withHash other).hashToScalar (rsComm prefixHash ab)) :
    ∃ pub ∈ pubs, ∃ sec, C.Owns pub sec ∧ image = C.generateKeyImage pub sec ∧
      ∀ another, C.Owns pub another → another = sec := by
  obtain ⟨imagePoint, isImage, imageOrder⟩ := (validateKeyImage_iff laws image).mp valid
  have isImageToo : (C.withHash other).geFrombytesVartime image.val = some imagePoint := isImage
  rw [checkRingSignature, isImage] at accepted
  rw [checkRingSignature, isImageToo] at acceptedToo
  dsimp only at accepted acceptedToo
  rw [checkLoop_withHash fun pub member => by
    rw [hashToEc, hashToEc]
    change 8 • C.geFromfeFrombytesVartime (other _) = _
    rw [sameKeys pub member]] at acceptedToo
  simp only [commitments, isImage, Option.bind_eq_bind, Option.bind_some] at sameComm differ
  cases checked : C.checkLoop imagePoint pubs sig 0 with
  | none =>
    rw [checked] at accepted
    cases accepted
  | some result =>
    obtain ⟨ab, total⟩ := result
    cases checkedToo : C.checkLoop imagePoint pubs sigToo 0 with
    | none =>
      rw [checkedToo] at acceptedToo
      cases acceptedToo
    | some resultToo =>
      obtain ⟨abToo, totalToo⟩ := resultToo
      rw [checked, checkedToo] at sameComm
      cases sameComm
      rw [checked] at accepted differ
      rw [checkedToo] at acceptedToo
      have isHash := (scSub_eq_zero laws _ _).mp (of_decide_eq_true accepted)
      have isHashToo : ((C.withHash other).hashToScalar (rsComm prefixHash ab) : ZMod C.l) =
          totalToo := (scSub_eq_zero laws _ _).mp (of_decide_eq_true acceptedToo)
      have apart : ((total : ZMod C.l) - (0 : Nat)) ≠ totalToo - (0 : Nat) := by
        rw [Nat.cast_zero, sub_zero, sub_zero, ← isHash, ← isHashToo]
        intro equal
        have below : (C.withHash other).hashToScalar (rsComm prefixHash ab) < C.l :=
          Nat.mod_lt _ laws.pos
        have rests := (ZMod.natCast_eq_natCast_iff' _ _ _).mp equal
        rw [Nat.mod_eq_of_lt (hashToScalar_lt laws _), Nat.mod_eq_of_lt below] at rests
        exact differ ab rfl rests
      obtain ⟨pub, member, point, one, another, decoded, challenges, same⟩ :=
        checkLoop_differ checked checkedToo apart
      obtain ⟨sec, owns, isMultiple⟩ :=
        memberComm_extracts laws imageOrder decoded challenges same
      refine ⟨pub, member, sec, owns, ?_, fun another ownsToo => ownsToo.unique laws owns⟩
      cases image
      rw [generateKeyImage, ← isMultiple]
      exact congrArg KeyImage.mk (laws.canonical isImage).symm

/-- A hash function that differs where more than a key is hashed. -/
def otherHash (data : List UInt8) : Nat :=
  if data.length = 32 then smallCurve.cnFastHash data else smallCurve.cnFastHash data + 1

theorem checkRingSignature_extracts_smallCurve :
    ∃ pub ∈ [(⟨25⟩ : PublicKey)], ∃ sec, smallCurve.Owns pub sec ∧
      (⟨49⟩ : KeyImage) = smallCurve.generateKeyImage pub sec ∧
      ∀ another, smallCurve.Owns pub another → another = sec := by
  have same : smallCurve.commitments ⟨49⟩ [⟨25⟩] [.ofScalars 9 6] =
      smallCurve.commitments ⟨49⟩ [⟨25⟩] [.ofScalars 10 3] := by
    decide +kernel
  have differ : ∀ ab ∈ smallCurve.commitments ⟨49⟩ [⟨25⟩] [.ofScalars 9 6],
      smallCurve.hashToScalar (rsComm ⟨5⟩ ab) ≠
        (smallCurve.withHash otherHash).hashToScalar (rsComm ⟨5⟩ ab) := by
    decide +kernel
  exact checkRingSignature_extracts smallCurve_laws (by decide +kernel) (by decide +kernel)
    (by decide +kernel) (by decide +kernel) same differ

end Virie.Curve
