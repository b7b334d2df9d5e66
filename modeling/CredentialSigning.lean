import CredentialSigning.Archive.Content
import CredentialSigning.Archive.Derivation
import CredentialSigning.Archive.Reader
import CredentialSigning.Arithmetic.Residue
import CredentialSigning.Bytes
import CredentialSigning.Certificate.CharacterString
import CredentialSigning.Certificate.Name
import CredentialSigning.Certificate.Reader
import CredentialSigning.Certificate.Time
import CredentialSigning.Cipher.Des
import CredentialSigning.Cipher.Rc2
import CredentialSigning.Curve.Domain
import CredentialSigning.Curve.Jacobian
import CredentialSigning.Der.Element
import CredentialSigning.Der.Rules
import CredentialSigning.Der.Written
import CredentialSigning.Ecdsa.Key
import CredentialSigning.Ecdsa.Nonce
import CredentialSigning.Ecdsa.Sign
import CredentialSigning.Ecdsa.Signature
import CredentialSigning.Failure
import CredentialSigning.Files
import CredentialSigning.Generator
import CredentialSigning.Hash.Sha1
import CredentialSigning.Hash.Sha256
import CredentialSigning.Hash.Sha512
import CredentialSigning.Hash.Word
import CredentialSigning.HashName
import CredentialSigning.Json.Decimal
import CredentialSigning.Json.Token
import CredentialSigning.Json.Value
import CredentialSigning.Json.Written
import CredentialSigning.Key.Info
import CredentialSigning.Key.Pem
import CredentialSigning.Key.Private
import CredentialSigning.Key.Public
import CredentialSigning.Oid
import CredentialSigning.Pem.Base64
import CredentialSigning.Pem.Bundle
import CredentialSigning.Pem.Document
import CredentialSigning.Proofs.Archive.Agreement
import CredentialSigning.Proofs.Archive.Integrity
import CredentialSigning.Proofs.Archive.Keys
import CredentialSigning.Proofs.Archive.Layout
import CredentialSigning.Proofs.Archive.Leaf
import CredentialSigning.Proofs.Archive.LeafKey
import CredentialSigning.Proofs.Arithmetic.Modular
import CredentialSigning.Proofs.Arithmetic.Primality
import CredentialSigning.Proofs.Certificate.Chain
import CredentialSigning.Proofs.Certificate.KeyInfo
import CredentialSigning.Proofs.Curve.Group
import CredentialSigning.Proofs.Curve.Order
import CredentialSigning.Proofs.Curve.Points
import CredentialSigning.Proofs.Curve.Primes
import CredentialSigning.Proofs.Der.Canonical
import CredentialSigning.Proofs.Der.Fields
import CredentialSigning.Proofs.Der.Reading
import CredentialSigning.Proofs.Ecdsa.Admission
import CredentialSigning.Proofs.Ecdsa.Complement
import CredentialSigning.Proofs.Ecdsa.Draws
import CredentialSigning.Proofs.Ecdsa.Encoding
import CredentialSigning.Proofs.Ecdsa.Key
import CredentialSigning.Proofs.Ecdsa.RandomNonce
import CredentialSigning.Proofs.Ecdsa.RoundTrip
import CredentialSigning.Proofs.Ecdsa.Signature
import CredentialSigning.Proofs.Generator
import CredentialSigning.Proofs.Json.Constant
import CredentialSigning.Proofs.Json.Exactness
import CredentialSigning.Proofs.Json.Grammar
import CredentialSigning.Proofs.Json.Integer
import CredentialSigning.Proofs.Json.Reading
import CredentialSigning.Proofs.Json.Scanning
import CredentialSigning.Proofs.Json.Spelling
import CredentialSigning.Proofs.Key.Classification
import CredentialSigning.Proofs.Key.Envelope
import CredentialSigning.Proofs.Key.Info
import CredentialSigning.Proofs.Key.Pem
import CredentialSigning.Proofs.Key.PrefixFree
import CredentialSigning.Proofs.Key.Public
import CredentialSigning.Proofs.Octets
import CredentialSigning.Proofs.Oid
import CredentialSigning.Proofs.Pem.Base64
import CredentialSigning.Proofs.Pem.Bundle
import CredentialSigning.Proofs.Pem.Document
import CredentialSigning.Proofs.Rsa.Admission
import CredentialSigning.Proofs.Rsa.Binding
import CredentialSigning.Proofs.Rsa.Padding
import CredentialSigning.Proofs.Rsa.Power
import CredentialSigning.Proofs.Rsa.Signature
import CredentialSigning.Proofs.Session.Signers
import CredentialSigning.Proofs.Signing
import CredentialSigning.Proofs.Source.Acceptance
import CredentialSigning.Proofs.Source.Rejection
import CredentialSigning.Proofs.Source.RoundTrip
import CredentialSigning.Proofs.Text
import CredentialSigning.Proofs.Verification.Bounds
import CredentialSigning.Proofs.Verification.Curve
import CredentialSigning.Proofs.Verification.Hashing
import CredentialSigning.Proofs.Verification.Length
import CredentialSigning.Proofs.Verification.Padding
import CredentialSigning.Proofs.Verification.Reading
import CredentialSigning.Proofs.Verification.Safety
import CredentialSigning.Rsa.Blinding
import CredentialSigning.Rsa.Key
import CredentialSigning.Rsa.Sign
import CredentialSigning.Scheme
import CredentialSigning.Session
import CredentialSigning.Signer.Basic
import CredentialSigning.Signer.Files
import CredentialSigning.Signer.Source
import CredentialSigning.Text
