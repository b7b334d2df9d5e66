import CredentialSigning.Bytes

/-! Object identifiers by their content octets. The first octet holds two arcs, every later arc is a
group of base-128 digits whose last octet is below 0x80. -/

namespace CredentialSigning

namespace Oid

/-- The arcs after the first octet. An arc takes at most five octets, of which the fifth is below
0x10, and is kept to 32 bits. `taken` counts the octets of the arc being read. -/
def laterArcs? (taken value : Nat) : Bytes → Option (List Nat)
  | [] => if taken = 0 then some [] else none
  | octet :: rest =>
    if 4 ≤ taken ∧ 0x10 ≤ octet then none
    else
      let value := (value * 128 + octet.toNat % 128) % (1 <<< 32)
      if octet < 0x80 then (laterArcs? 0 0 rest).map (value :: ·)
      else laterArcs? (taken + 1) value rest

/-- All arcs of three to 39 octets, the first of which is below 120. -/
def arcs? : Bytes → Option (List Nat)
  | [] => none
  | first :: rest =>
    if first < 120 ∧ 2 ≤ rest.length ∧ rest.length ≤ 38 then
      (laterArcs? 0 0 rest).map fun arcs => first.toNat / 40 :: first.toNat % 40 :: arcs
    else none

end Oid

/-- Content octets that arcs can be read from. -/
structure Oid where
  octets : Bytes
  wellFormed : (Oid.arcs? octets).isSome = true
  deriving DecidableEq

namespace Oid

def ofOctets? (octets : Bytes) : Option Oid :=
  if wellFormed : (arcs? octets).isSome then some ⟨octets, wellFormed⟩ else none

def arcs (oid : Oid) : List Nat :=
  (arcs? oid.octets).get oid.wellFormed

/-- The arcs in decimal, with dots between them. -/
def dotted (oid : Oid) : String :=
  String.intercalate "." (oid.arcs.map toString)

def rsaEncryption : Oid :=
  ⟨[0x2a, 0x86, 0x48, 0x86, 0xf7, 0x0d, 0x01, 0x01, 0x01], by decide⟩

def ecPublicKey : Oid :=
  ⟨[0x2a, 0x86, 0x48, 0xce, 0x3d, 0x02, 0x01], by decide⟩

def secp256r1 : Oid :=
  ⟨[0x2a, 0x86, 0x48, 0xce, 0x3d, 0x03, 0x01, 0x07], by decide⟩

def secp384r1 : Oid :=
  ⟨[0x2b, 0x81, 0x04, 0x00, 0x22], by decide⟩

def secp521r1 : Oid :=
  ⟨[0x2b, 0x81, 0x04, 0x00, 0x23], by decide⟩

theorem ofOctets?_octets (oid : Oid) : ofOctets? oid.octets = some oid := by
  simp [ofOctets?, oid.wellFormed]

end Oid
end CredentialSigning
