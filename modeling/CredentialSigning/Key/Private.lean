import CredentialSigning.Key.Public
import CredentialSigning.Scheme

/-! Private keys and their classification: the algorithm of the envelope decides which kind of key
the octets inside have to be. -/

namespace CredentialSigning

inductive PrivateKey
  | rsa (key : Rsa.PrivateKey)
  | ec (key : Ecdsa.Key)
  deriving DecidableEq

namespace PrivateKey

def scheme : PrivateKey → Scheme
  | rsa _ => .rsa
  | ec _ => .ecdsa

def publicKey : PrivateKey → PublicKey
  | rsa key => .rsa key.publicKey
  | ec key => .ec key.curve key.point

/-- The key in an envelope. The algorithm is looked at first, and a curve before the key on it. -/
def ofInfo (info : Key.Info) : Except Failure PrivateKey :=
  if info.algorithm = Oid.rsaEncryption then
    if info.parameters = some ⟨[0x05], []⟩ then
      match Rsa.PrivateKey.ofDer? info.key with
      | some key => .ok (rsa key)
      | none => .error (.invalidCredential .rsaKey)
    else .error (.invalidCredential .rsaKey)
  else if info.algorithm = Oid.ecPublicKey then
    match info.namedParameters? with
    | none => .error (.invalidCredential .curveParameters)
    | some identifier =>
      match Curve.ofIdentifier? identifier with
      | none => .error (.unsupportedAlgorithm (.curve identifier))
      | some curve =>
        match (Ecdsa.Key.ofDer? curve info.key).bind Ecdsa.Key.signing? with
        | some key => .ok (ec key)
        | none => .error (.invalidCredential (.ecKey curve))
  else .error (.unsupportedAlgorithm (.algorithm info.algorithm))

def ofDer (octets : Bytes) : Except Failure PrivateKey :=
  match Key.Info.ofDer? octets with
  | some info => ofInfo info
  | none => .error (.invalidCredential .keyInfo)

theorem ofDer_eq_ok_iff {octets : Bytes} {key : PrivateKey} : ofDer octets = .ok key ↔
    ∃ info, Key.Info.ofDer? octets = some info ∧ ofInfo info = .ok key := by
  unfold ofDer
  cases Key.Info.ofDer? octets <;> simp

/-- The signature of some data. A hash function that is not computed is refused before any random
octet is taken. -/
def sign (key : PrivateKey) (data : Bytes) (hash : HashName) (generator : Generator) :
    Except Failure Bytes × Generator :=
  match hash.digest data with
  | .error failure => (.error failure, generator)
  | .ok digest =>
    match key with
    | rsa key =>
      let (signature, generator) := Rsa.sign? key hash digest generator
      match signature with
      | some signature => (.ok signature, generator)
      | none => (.error (.signingFailed (.rsa hash)), generator)
    | ec key =>
      let (signature, generator) := Ecdsa.sign? key digest generator
      match signature with
      | some signature => (.ok signature.write, generator)
      | none => (.error (.signingFailed (.ecdsa key.curve)), generator)

end PrivateKey
end CredentialSigning
