import CredentialSigning.Arithmetic.Residue
import CredentialSigning.Der.Rules
import CredentialSigning.Der.Written

/-! RSA keys. A private key has two factors of the modulus, which need not be prime. -/

namespace CredentialSigning.Rsa
open Der

structure PublicKey where
  modulus : Nat
  exponent : Nat
  deriving DecidableEq, Repr

namespace PublicKey

/-- The number of octets of the modulus, and of every signature. -/
def size (key : PublicKey) : Nat :=
  (Residue.bitLength key.modulus + 7) / 8

def write (key : PublicKey) : Bytes :=
  writeSequence [writeNatural key.modulus, writeNatural key.exponent]

end PublicKey

/-- The conditions on the numbers of a private key. The exponents are inverse to each other modulo
one less than either factor. -/
structure Admissible (modulus exponent secret p q : Nat) : Prop where
  odd_modulus : modulus % 2 = 1
  odd_exponent : exponent % 2 = 1
  exponent_above : 3 ≤ exponent
  exponent_below : exponent < 1 <<< 33
  exponent_below_modulus : exponent < modulus
  factor_p : 1 < p
  factor_q : 1 < q
  product : p * q = modulus
  inverse_p : secret * exponent % (p - 1) = 1
  inverse_q : secret * exponent % (q - 1) = 1

theorem admissible_iff (modulus exponent secret p q : Nat) :
    Admissible modulus exponent secret p q ↔
      modulus % 2 = 1 ∧ exponent % 2 = 1 ∧ 3 ≤ exponent ∧ exponent < 1 <<< 33 ∧
      exponent < modulus ∧ 1 < p ∧ 1 < q ∧ p * q = modulus ∧
      secret * exponent % (p - 1) = 1 ∧ secret * exponent % (q - 1) = 1 :=
  ⟨fun ⟨a, b, c, d, e, f, g, h, i, j⟩ => ⟨a, b, c, d, e, f, g, h, i, j⟩,
    fun ⟨a, b, c, d, e, f, g, h, i, j⟩ => ⟨a, b, c, d, e, f, g, h, i, j⟩⟩

def remainder? (value divisor : Nat) : Option Nat :=
  if divisor = 0 then none else some (value % divisor)

/-- The conditions in their turn: the factors are known to be above one before anything is divided by
one less than either. A division by zero would leave no verdict. -/
def verdict? (modulus exponent secret p q : Nat) : Option Bool :=
  if modulus % 2 = 1 ∧ exponent % 2 = 1 ∧ 3 ≤ exponent ∧ exponent < 1 <<< 33 ∧
      exponent < modulus ∧ 1 < p ∧ 1 < q ∧ p * q = modulus then do
    let inverse ← remainder? (secret * exponent) (p - 1)
    if inverse = 1 then do
      let inverse ← remainder? (secret * exponent) (q - 1)
      some (inverse = 1)
    else some false
  else some false

theorem remainder?_sub_one {factor : Nat} (above : 1 < factor) (value : Nat) :
    remainder? value (factor - 1) = some (value % (factor - 1)) :=
  if_neg (Nat.sub_ne_zero_of_lt above)

theorem verdict?_eq_some_true_iff (modulus exponent secret p q : Nat) :
    verdict? modulus exponent secret p q = some true ↔ Admissible modulus exponent secret p q := by
  rw [admissible_iff, verdict?]
  split
  · rename_i earlier
    obtain ⟨oddModulus, oddExponent, above, below, belowModulus, factorP, factorQ, product⟩ := earlier
    rw [remainder?_sub_one factorP, remainder?_sub_one factorQ]
    simp only [Option.bind_eq_bind, Option.bind_some, oddModulus, oddExponent, above, below,
      belowModulus, factorP, factorQ, product, true_and]
    split
    · rename_i inverse
      simp [inverse]
    · rename_i other
      simp [other]
  · rename_i earlier
    constructor
    · intro impossible
      cases impossible
    · rintro ⟨a, b, c, d, e, f, g, h, -⟩
      exact absurd ⟨a, b, c, d, e, f, g, h⟩ earlier

instance (modulus exponent secret p q : Nat) :
    Decidable (Admissible modulus exponent secret p q) :=
  decidable_of_iff _ (verdict?_eq_some_true_iff modulus exponent secret p q)

structure PrivateKey where
  modulus : Nat
  exponent : Nat
  secret : Nat
  p : Nat
  q : Nat
  admissible : Admissible modulus exponent secret p q
  deriving DecidableEq

namespace PrivateKey

def publicKey (key : PrivateKey) : PublicKey :=
  ⟨key.modulus, key.exponent⟩

/-- Eight numbers after a version 0. The last three, which follow from the others, are not used. -/
def ofDer? (octets : Bytes) : Option PrivateKey := do
  let content ← Rules.key.whole? 0x30 octets
  let fields ← Rules.key.elements? content
  if fields.all (·.tag = [0x02]) then do
    match ← fields.mapM fun field => natural? field.content with
    | [0, modulus, exponent, secret, p, q, _, _, _] =>
      if admissible : Admissible modulus exponent secret p q then
        some ⟨modulus, exponent, secret, p, q, admissible⟩
      else none
    | _ => none
  else none

/-- A power by the secret exponent, taken modulo each factor and put together. Factors that are not
coprime leave only the power modulo the modulus. -/
def secretPower (key : PrivateKey) (base : Nat) : Nat :=
  match Residue.inverse? key.p key.q with
  | some inverse =>
    let modP := Residue.power key.p base (key.secret % (key.p - 1))
    let modQ := Residue.power key.q base (key.secret % (key.q - 1))
    modQ + key.q * Residue.mul key.p (Residue.sub key.p modP modQ) inverse
  | none => Residue.power key.modulus base key.secret

end PrivateKey
end CredentialSigning.Rsa
