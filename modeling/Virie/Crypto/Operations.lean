import Virie.Construction
import Virie.Foundation.Codec
import Virie.Foundation.PrimeOrder

/-! # Keys and signatures

The operations on keys: derived one-time keys, key images, signatures and ring signatures. The
curve itself and the hash function are parameters. Keys, images and derivations are the numbers
that 32 bytes spell, a signature is two of them. -/

open Foundation

namespace Virie

/-- The curve and the hash function. Only canonical numbers are points. -/
structure Curve (Point : Type) where
  /-- The order of the base point. -/
  l : Nat
  base : Point
  geFrombytesVartime : Nat → Option Point
  geTobytes : Point → Nat
  geFromfeFrombytesVartime : Nat → Point
  cnFastHash : List UInt8 → Nat

/-- What is known of the curve: the base point has a prime order, together with a cofactor of eight
it takes every point to zero, and every point has one encoding, that of zero being one. -/
structure Curve.Laws {Point : Type} [AddCommGroup Point] (C : Curve Point) : Prop where
  prime : C.l.Prime
  odd : C.l ≠ 2
  small : C.l < 2 ^ 256
  notZero : C.base ≠ 0
  order : C.l • C.base = 0
  cofactor : ∀ P : Point, C.l • (8 • P) = 0
  decoded : ∀ P, C.geFrombytesVartime (C.geTobytes P) = some P
  canonical : ∀ {b P}, C.geFrombytesVartime b = some P → C.geTobytes P = b
  identity : C.geTobytes 0 = 1

/-! ## Signatures -/

namespace Signature

/-- The first scalar of a signature. -/
def c (sig : Signature) : Nat := sig.val % 2 ^ 256

/-- The second scalar of a signature. -/
def r (sig : Signature) : Nat := sig.val / 2 ^ 256

def ofScalars (c r : Nat) : Signature := ⟨c + r * 2 ^ 256⟩

theorem c_ofScalars {c : Nat} (small : c < 2 ^ 256) (r : Nat) : (ofScalars c r).c = c := by
  rw [Signature.c, ofScalars, Nat.add_mul_mod_self_right, Nat.mod_eq_of_lt small]

theorem r_ofScalars {c : Nat} (small : c < 2 ^ 256) (r : Nat) : (ofScalars c r).r = r := by
  rw [Signature.r, ofScalars, Nat.add_mul_div_right _ _ (by decide), Nat.div_eq_of_lt small,
    Nat.zero_add]

end Signature

namespace Curve

variable {Point : Type} [AddCommGroup Point] (C : Curve Point)

/-! ## Scalars -/

/-- A scalar is canonical. -/
def scCheck (s : Nat) : Bool := decide (s < C.l)

def scAdd (a b : Nat) : Nat := (a + b) % C.l

def scSub (a b : Nat) : Nat := (((a : Int) - b) % C.l).toNat

/-- What is left of the third scalar without the product of the others. -/
def scMulsub (a b c : Nat) : Nat := (((c : Int) - a * b) % C.l).toNat

def hashToScalar (data : List UInt8) : Nat := C.cnFastHash data % C.l

/-! ## Keys -/

def checkKey (key : PublicKey) : Bool := (C.geFrombytesVartime key.val).isSome

def secretKeyToPublicKey (sec : SecretKey) : Option PublicKey :=
  if C.scCheck sec.val then some ⟨C.geTobytes (sec.val • C.base)⟩ else none

def generateKeyDerivation (key1 : PublicKey) (key2 : SecretKey) : Option KeyDerivation :=
  (C.geFrombytesVartime key1.val).map fun point => ⟨C.geTobytes (8 • (key2.val • point))⟩

def derivationToScalar (derivation : KeyDerivation) (outputIndex : Nat) : Nat :=
  C.hashToScalar (Codec.writeUint 32 derivation.val ++ writeVarint outputIndex)

def derivePublicKey (derivation : KeyDerivation) (outputIndex : Nat) (base : PublicKey) :
    Option PublicKey :=
  (C.geFrombytesVartime base.val).map fun point =>
    ⟨C.geTobytes (point + C.derivationToScalar derivation outputIndex • C.base)⟩

def deriveSecretKey (derivation : KeyDerivation) (outputIndex : Nat) (base : SecretKey) :
    SecretKey :=
  ⟨C.scAdd base.val (C.derivationToScalar derivation outputIndex)⟩

/-! ## Key images -/

def hashToEc (key : PublicKey) : Point :=
  8 • C.geFromfeFrombytesVartime (C.cnFastHash (Codec.writeUint 32 key.val))

def generateKeyImage (pub : PublicKey) (sec : SecretKey) : KeyImage :=
  ⟨C.geTobytes (sec.val • C.hashToEc pub)⟩

/-- A multiple of the point of an image; zero if it is not a point. -/
def scalarmultKey (P : KeyImage) (a : Nat) : Nat :=
  match C.geFrombytesVartime P.val with
  | none => 0
  | some A => C.geTobytes (a • A)

def validateKeyImage (ki : KeyImage) : Bool := decide (C.scalarmultKey ki C.l = 1)

/-! ## Signatures of one key -/

/-- What is hashed for a signature. -/
def sComm (h : Hash) (key : PublicKey) (comm : Nat) : List UInt8 :=
  Codec.writeUint 32 h.val ++ Codec.writeUint 32 key.val ++ Codec.writeUint 32 comm

/-- A signature made with the random scalar `k`. -/
def generateSignature (k : Nat) (prefixHash : Hash) (pub : PublicKey) (sec : SecretKey) :
    Signature :=
  let comm := C.geTobytes (k • C.base)
  let c := C.hashToScalar (sComm prefixHash pub comm)
  .ofScalars c (C.scMulsub c sec.val k)

def checkSignature (prefixHash : Hash) (pub : PublicKey) (sig : Signature) : Bool :=
  match C.geFrombytesVartime pub.val with
  | none => false
  | some point =>
    if !C.scCheck sig.c || !C.scCheck sig.r then false
    else
      let comm := C.geTobytes (sig.c • point + sig.r • C.base)
      let c := C.hashToScalar (sComm prefixHash pub comm)
      decide (C.scSub c sig.c = 0)

/-! ## Ring signatures -/

/-- The commitments of a ring, in the order of its members. -/
abbrev RsComm := List (Nat × Nat)

/-- What is hashed for a ring signature. -/
def rsComm (h : Hash) (ab : RsComm) : List UInt8 :=
  Codec.writeUint 32 h.val ++
    ab.flatMap fun entry => Codec.writeUint 32 entry.1 ++ Codec.writeUint 32 entry.2

/-- The commitments that a member of the ring has for a pair of scalars. -/
def memberComm (image : Point) (pub : PublicKey) (point : Point) (sig : Signature) : Nat × Nat :=
  (C.geTobytes (sig.c • point + sig.r • C.base),
    C.geTobytes (sig.r • C.hashToEc pub + sig.c • image))

/-- The members of the ring from the `i`-th on: their commitments, their scalars and the sum of the
challenges. The real member commits to the random scalar `k` and has no scalars yet. A key that is
not a point ends the program. -/
def generateLoop (image : Point) (k : Nat) (random : Nat → Nat × Nat) (secIndex : Nat) :
    Nat → List PublicKey → Nat → Option (RsComm × List Signature × Nat)
  | _, [], sum => some ([], [], sum)
  | i, pub :: pubs, sum =>
    if i = secIndex then do
      let (ab, sig, sum) ← generateLoop image k random secIndex (i + 1) pubs sum
      pure ((C.geTobytes (k • C.base), C.geTobytes (k • C.hashToEc pub)) :: ab, nullSig :: sig, sum)
    else do
      let sig := Signature.ofScalars (random i).1 (random i).2
      let point ← C.geFrombytesVartime pub.val
      let (ab, sigs, sum) ←
        generateLoop image k random secIndex (i + 1) pubs (C.scAdd sum sig.c)
      pure (C.memberComm image pub point sig :: ab, sig :: sigs, sum)

/-- A ring signature made with the random scalar `k` and two more for every other member. -/
def generateRingSignature (k : Nat) (random : Nat → Nat × Nat) (prefixHash : Hash)
    (image : KeyImage) (pubs : List PublicKey) (sec : SecretKey) (secIndex : Nat) :
    Option (List Signature) := do
  let imageUnp ← C.geFrombytesVartime image.val
  let (ab, sig, sum) ← C.generateLoop imageUnp k random secIndex 0 pubs 0
  let h := C.hashToScalar (rsComm prefixHash ab)
  let c := C.scSub h sum
  pure (sig.set secIndex (.ofScalars c (C.scMulsub c sec.val k)))

/-- The commitments and the sum of the challenges of a ring, as the signature has them. There are as
many signatures as keys. -/
def checkLoop (image : Point) : List PublicKey → List Signature → Nat → Option (RsComm × Nat)
  | [], _, sum => some ([], sum)
  | _ :: _, [], _ => none
  | pub :: pubs, sig :: sigs, sum =>
    if !C.scCheck sig.c || !C.scCheck sig.r then none
    else do
      let point ← C.geFrombytesVartime pub.val
      let (ab, sum) ← checkLoop image pubs sigs (C.scAdd sum sig.c)
      pure (C.memberComm image pub point sig :: ab, sum)

def checkRingSignature (prefixHash : Hash) (image : KeyImage) (pubs : List PublicKey)
    (sig : List Signature) : Bool :=
  match C.geFrombytesVartime image.val with
  | none => false
  | some imageUnp =>
    match C.checkLoop imageUnp pubs sig 0 with
    | none => false
    | some (ab, sum) => decide (C.scSub (C.hashToScalar (rsComm prefixHash ab)) sum = 0)

end Curve

end Virie
