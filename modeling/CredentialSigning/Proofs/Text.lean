import CredentialSigning.Text

/-! ASCII text: octets below 0x80 are UTF-8, one character each. -/

namespace CredentialSigning.Text

def IsAscii (octets : Bytes) : Prop :=
  ∀ octet ∈ octets, octet < 0x80

instance (octets : Bytes) : Decidable (IsAscii octets) :=
  List.decidableBAll _ octets

/-- The characters of ASCII octets. -/
def characters (octets : Bytes) : List Char :=
  octets.map fun octet => Char.ofNat octet.toNat

theorem characters_append (octets others : Bytes) :
    characters (octets ++ others) = characters octets ++ characters others :=
  List.map_append

theorem toNat_character {octet : UInt8} (ascii : octet < 0x80) :
    (Char.ofNat octet.toNat).toNat = octet.toNat := by
  have small : octet.toNat < 0x80 := UInt8.lt_iff_toNat_lt.mp ascii
  have valid : octet.toNat.isValidChar := .inl (by omega)
  rw [Char.ofNat, dif_pos valid]
  rfl

theorem utf8EncodeChar_character {octet : UInt8} (ascii : octet < 0x80) :
    String.utf8EncodeChar (Char.ofNat octet.toNat) = [octet] := by
  have small : octet.toNat < 0x80 := UInt8.lt_iff_toNat_lt.mp ascii
  have number : (Char.ofNat octet.toNat).val.toNat = octet.toNat := toNat_character ascii
  have short : (Char.ofNat octet.toNat).utf8Size = 1 := by
    rw [Char.utf8Size_eq_one_iff, UInt32.le_iff_toNat_le, number]
    exact Nat.le_of_lt_succ small
  rw [String.utf8EncodeChar_eq_singleton short, List.cons.injEq]
  refine ⟨?_, rfl⟩
  apply UInt8.toNat_inj.mp
  rw [UInt32.toNat_toUInt8, number]
  exact Nat.mod_eq_of_lt octet.toNat_lt

theorem flatMap_utf8EncodeChar {octets : Bytes} (ascii : IsAscii octets) :
    (characters octets).flatMap String.utf8EncodeChar = octets := by
  induction octets with
  | nil => rfl
  | cons octet octets hypothesis =>
    obtain ⟨here, later⟩ := List.forall_mem_cons.mp ascii
    have rest := hypothesis later
    rw [characters] at rest ⊢
    rw [List.map_cons, List.flatMap_cons, utf8EncodeChar_character here, rest, List.singleton_append]

theorem ofUtf8?_ascii {octets : Bytes} (ascii : IsAscii octets) :
    ofUtf8? octets = some (String.ofList (characters octets)) := by
  have encoded : (characters octets).utf8Encode = ⟨octets.toArray⟩ := by
    apply ByteArray.ext
    rw [List.utf8Encode, flatMap_utf8EncodeChar ascii, List.data_toByteArray]
  have valid : ByteArray.IsValidUTF8 ⟨octets.toArray⟩ := ⟨characters octets, encoded.symm⟩
  rw [ofUtf8?, String.fromUTF8?, dif_pos valid]
  congr 1
  apply String.toByteArray_inj.mp
  exact encoded.symm

end CredentialSigning.Text
