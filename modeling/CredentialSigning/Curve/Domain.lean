import CredentialSigning.Arithmetic.Residue
import CredentialSigning.Bytes

/-! Elliptic curves y² = x³ + ax + b over a prime field, with a base point of prime order, their
points as octet strings, and the three curves that keys may be on. -/

namespace CredentialSigning.Curve

/-- The parameters of a curve. Field elements and scalars are written in `width` octets. -/
structure Domain where
  prime : Nat
  a : Nat
  b : Nat
  baseX : Nat
  baseY : Nat
  order : Nat
  width : Nat
  deriving DecidableEq

/-- A point with coordinates below the prime, or the neutral element. -/
inductive Point
  | infinity
  | affine (x y : Nat)
  deriving DecidableEq, Repr

namespace Point

/-- A form octet, then both coordinates in full width. -/
def uncompressed (width : Nat) : Point → Bytes
  | .infinity => [0]
  | .affine x y => 4 :: Bytes.ofNat width x ++ Bytes.ofNat width y

/-- The parity of y in the form octet, then x alone. -/
def compressed (width : Nat) : Point → Bytes
  | .infinity => [0]
  | .affine x y => (if y % 2 = 0 then 2 else 3) :: Bytes.ofNat width x

/-- The first coordinate; the neutral element is given zero. -/
def xCoordinate : Point → Nat
  | .infinity => 0
  | .affine x _ => x

end Point

namespace Domain

def base (d : Domain) : Point :=
  .affine d.baseX d.baseY

/-- The curve equation, for coordinates below the prime. -/
def Contains (d : Domain) : Point → Prop
  | .infinity => True
  | .affine x y => x < d.prime ∧ y < d.prime ∧
      y * y % d.prime = (x * x * x + d.a * x + d.b) % d.prime

instance (d : Domain) (point : Point) : Decidable (d.Contains point) := by
  cases point <;> unfold Contains <;> infer_instance

end Domain

def p256Domain : Domain where
  prime := 1 <<< 256 - 1 <<< 224 + 1 <<< 192 + 1 <<< 96 - 1
  a := 1 <<< 256 - 1 <<< 224 + 1 <<< 192 + 1 <<< 96 - 4
  b := 0x5ac635d8aa3a93e7b3ebbd55769886bc651d06b0cc53b0f63bce3c3e27d2604b
  baseX := 0x6b17d1f2e12c4247f8bce6e563a440f277037d812deb33a0f4a13945d898c296
  baseY := 0x4fe342e2fe1a7f9b8ee7eb4a7c0f9e162bce33576b315ececbb6406837bf51f5
  order := 0xffffffff00000000ffffffffffffffffbce6faada7179e84f3b9cac2fc632551
  width := 32

def p384Domain : Domain where
  prime := 1 <<< 384 - 1 <<< 128 - 1 <<< 96 + 1 <<< 32 - 1
  a := 1 <<< 384 - 1 <<< 128 - 1 <<< 96 + 1 <<< 32 - 4
  b :=
    0xb3312fa7e23ee7e4988e056be3f82d19181d9c6efe8141120314088f5013875ac656398d8a2ed19d2a85c8edd3ec2aef
  baseX :=
    0xaa87ca22be8b05378eb1c71ef320ad746e1d3b628ba79b9859f741e082542a385502f25dbf55296c3a545e3872760ab7
  baseY :=
    0x3617de4a96262c6f5d9e98bf9292dc29f8f41dbd289a147ce9da3113b5f0b8c00a60b1ce1d7e819d7a431d7c90ea0e5f
  order :=
    0xffffffffffffffffffffffffffffffffffffffffffffffffc7634d81f4372ddf581a0db248b0a77aecec196accc52973
  width := 48

def p521Domain : Domain where
  prime := 1 <<< 521 - 1
  a := 1 <<< 521 - 4
  b :=
    0x51953eb9618e1c9a1f929a21a0b68540eea2da725b99b315f3b8b489918ef109e156193951ec7e937b1652c0bd3bb1bf073573df883d2c34f1ef451fd46b503f00
  baseX :=
    0xc6858e06b70404e9cd9e3ecb662395b4429c648139053fb521f828af606b4d3dbaa14b5e77efe75928fe1dc127a2ffa8de3348b3c1856a429bf97e7e31c2e5bd66
  baseY :=
    0x11839296a789a3bc0045c8a5fb42c7d1bd998f54449579b446817afbd17273e662c97ee72995ef42640c550b9013fad0761353c7086a272c24088be94769fd16650
  order :=
    0x1fffffffffffffffffffffffffffffffffffffffffffffffffffffffffffffffffa51868783bf2f966b7fcc0148f709a5d03bb5c9b8899c47aebb6fb71e91386409
  width := 66

end CredentialSigning.Curve

namespace CredentialSigning

inductive Curve
  | p256
  | p384
  | p521
  deriving DecidableEq, Repr

namespace Curve

def domain : Curve → Domain
  | .p256 => Curve.p256Domain
  | .p384 => Curve.p384Domain
  | .p521 => Curve.p521Domain

def name : Curve → String
  | .p256 => "P-256"
  | .p384 => "P-384"
  | .p521 => "P-521"

theorem domain_contains_base (curve : Curve) : curve.domain.Contains curve.domain.base := by
  cases curve <;> decide +kernel

end Curve
end CredentialSigning
