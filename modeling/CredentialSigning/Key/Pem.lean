import CredentialSigning.Key.Private
import CredentialSigning.Pem.Document

/-! Private keys in PEM documents. The label of the document says nothing about the key. -/

namespace CredentialSigning

namespace Key.Info

def ofPem (text : Bytes) : Except Failure Info :=
  match Pem.Document.read? text with
  | none => .error (.invalidCredential .keyPem)
  | some (_, der) =>
    match ofDer? der with
    | none => .error (.invalidCredential .keyInfo)
    | some info => .ok info

end Key.Info

namespace PrivateKey

def ofPem (text : Bytes) : Except Failure PrivateKey := do
  ofInfo (← Key.Info.ofPem text)

theorem ofPem_eq (text : Bytes) : ofPem text =
    match Pem.Document.read? text with
    | none => .error (.invalidCredential .keyPem)
    | some (_, der) => ofDer der := by
  unfold ofPem Key.Info.ofPem ofDer
  split
  · rfl
  · split <;> rename_i found <;> simp [found] <;> rfl

end PrivateKey
end CredentialSigning
