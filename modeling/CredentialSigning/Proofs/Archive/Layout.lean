import CredentialSigning.Proofs.Archive.Agreement
import Mathlib.Logic.Relation

/-! How archives lay their bags out: in one content or in several, each plain or encrypted, with or
without attributes. The layout makes no difference. What counts is the first key that opens, and the
certificates in their order. -/

namespace CredentialSigning

namespace Archive
open Der

theorem mapM_bind {α β γ : Type} (first : α → Option β) (second : β → Option γ) (items : List α) :
    (items.mapM fun item => (first item).bind second) =
      (items.mapM first).bind fun found => found.mapM second := by
  induction items with
  | nil => rfl
  | cons item items hypothesis =>
    cases found : first item with
    | none => simp [found]
    | some value =>
      cases later : items.mapM first with
      | none => simp [found, later, hypothesis]
      | some values => simp [found, later, hypothesis]

/-- A bag as it is stored: its type, its value, and the octets of its attributes if there are any. -/
structure StoredBag where
  type : Bytes
  value : Bytes
  attributes : Bytes
  deriving DecidableEq

/-- A content of an archive with the bags that are stored in it. -/
structure Safe where
  content : Content
  entries : List StoredBag
  deriving DecidableEq

namespace StoredBag

def read? (element : Element) : Option StoredBag :=
  if element.tag = [0x30] then do
    let (type, rest) ← takeOid? element.content
    let (value, attributes) ← Rules.archive.take? 0xa0 rest
    some ⟨type, value, attributes⟩
  else none

/-- The bag that the type and the value make. -/
def meaning? (entry : StoredBag) : Option Bag :=
  if entry.type = Oid.certificateBag then Bag.readCertificate? entry.value
  else if entry.type = Oid.shroudedKeyBag then Bag.readShroudedKey? entry.value
  else (Rules.archive.only? entry.value).map fun _ => .other entry.type

/-- Whether what follows the value is nothing or a set of attributes. -/
def isDescribed (entry : StoredBag) : Bool :=
  entry.attributes = [] || (Rules.archive.whole? 0x31 entry.attributes).any Bag.areAttributes

def bag? (entry : StoredBag) : Option Bag :=
  if entry.isDescribed then entry.meaning? else none

def key? (entry : StoredBag) : Option Bytes :=
  entry.meaning?.bind Bag.key?

def certificate? (entry : StoredBag) : Option Bytes :=
  entry.meaning?.bind Bag.certificate?

/-- A bag that is read counts if its attributes are sound. -/
theorem described_eq (type value attributes : Bytes) (meaning : Option Bag) :
    (meaning.bind fun bag =>
      if attributes = [] then some bag
      else (Rules.archive.whole? 0x31 attributes).bind fun octets =>
        if Bag.areAttributes octets then some bag else none) =
      if isDescribed ⟨type, value, attributes⟩ then meaning else none := by
  cases meaning with
  | none => simp
  | some bag =>
    by_cases bare : attributes = []
    · simp [isDescribed, bare]
    · cases found : Rules.archive.whole? 0x31 attributes <;> simp [isDescribed, bare, found]

theorem bag_read?_eq (element : Element) : Bag.read? element = (read? element).bind bag? := by
  unfold Bag.read? read?
  split
  · cases takeOid? element.content with
    | none => rfl
    | some typed =>
      obtain ⟨type, rest⟩ := typed
      cases found : Rules.archive.take? 0xa0 rest with
      | none => simp [found]
      | some valued =>
        obtain ⟨value, attributes⟩ := valued
        simp only [found, Option.bind_eq_bind, Option.bind_some, bag?, ← described_eq, meaning?]
        split
        · rfl
        · split <;> rfl
  · rfl

theorem key?_of_readCertificate? {value : Bytes} {bag : Bag}
    (read : Bag.readCertificate? value = some bag) : bag.key? = none := by
  simp only [Bag.readCertificate?, Option.bind_eq_bind, Option.bind_eq_some_iff] at read
  obtain ⟨content, -, ⟨type, rest⟩, -, inner, -, read⟩ := read
  split at read
  · obtain ⟨octets, -, rfl⟩ := Option.map_eq_some_iff.mp read
    rfl
  · split at read
    · obtain ⟨text, -, read⟩ := Option.bind_eq_some_iff.mp read
      split at read <;> cases read
      rfl
    · cases read

theorem certificate?_of_readShroudedKey? {value : Bytes} {bag : Bag}
    (read : Bag.readShroudedKey? value = some bag) : bag.certificate? = none := by
  simp only [Bag.readShroudedKey?, Option.bind_eq_bind, Option.bind_eq_some_iff] at read
  obtain ⟨content, -, ⟨algorithm, rest⟩, -, protection, -, read⟩ := read
  obtain ⟨octets, -, rfl⟩ := Option.map_eq_some_iff.mp read
  rfl

theorem key?_eq_none {entry : StoredBag} (other : entry.type ≠ Oid.shroudedKeyBag) :
    entry.key? = none := by
  rw [key?, Option.bind_eq_none_iff]
  intro bag meant
  rw [meaning?, if_neg other] at meant
  split at meant
  · exact key?_of_readCertificate? meant
  · obtain ⟨element, -, rfl⟩ := Option.map_eq_some_iff.mp meant
    rfl

theorem certificate?_eq_none {entry : StoredBag} (other : entry.type ≠ Oid.certificateBag) :
    entry.certificate? = none := by
  rw [certificate?, Option.bind_eq_none_iff]
  intro bag meant
  rw [meaning?, if_neg other] at meant
  split at meant
  · exact certificate?_of_readShroudedKey? meant
  · obtain ⟨element, -, rfl⟩ := Option.map_eq_some_iff.mp meant
    rfl

theorem meaning?_of_bag? {entry : StoredBag} {bag : Bag} (read : entry.bag? = some bag) :
    entry.meaning? = some bag := by
  unfold bag? at read
  split at read
  · exact read
  · cases read

end StoredBag

/-- A content with the bags that are stored in it. -/
def Content.safe? (content : Content) : Option Safe := do
  let octets ← content.open?
  let entries ← (← Rules.archive.elements? (← Rules.archive.whole? 0x30 octets)).mapM StoredBag.read?
  some ⟨content, entries⟩

/-- The contents of an archive in order, each with the bags that are stored in it. -/
def layout? (archive : Archive) : Option (List Safe) := do
  let octets ← archive.safe.open?
  (← Rules.archive.elements? (← Rules.archive.whole? 0x30 octets)).mapM fun element =>
    if element.tag = [0x30] then (Content.read? element.content).bind Content.safe? else none

def Safe.bags? (safe : Safe) : Option (List Bag) :=
  safe.entries.mapM StoredBag.bag?

theorem safe?_bind_bags? (content : Content) :
    content.safe?.bind Safe.bags? = content.open?.bind Bag.readAll? := by
  have reader : Bag.read? = fun element => (StoredBag.read? element).bind StoredBag.bag? :=
    funext StoredBag.bag_read?_eq
  unfold Bag.readAll?
  simp only [reader, mapM_bind, Content.safe?, Safe.bags?, Option.bind_eq_bind, Option.bind_assoc,
    Option.bind_some]

/-- The bags of an archive are those of its contents one after the other. -/
theorem bags?_eq (archive : Archive) : archive.bags? =
    (archive.layout?.bind fun safes => safes.mapM Safe.bags?).map List.flatten := by
  have reader : (fun element : Element =>
      if element.tag = [0x30] then (Content.read? element.content).bind fun content =>
        content.open?.bind Bag.readAll? else none) = fun element =>
      (if element.tag = [0x30] then (Content.read? element.content).bind Content.safe? else none).bind
        Safe.bags? := by
    funext element
    split
    · simp only [Option.bind_assoc, safe?_bind_bags?]
    · rfl
  simp only [Archive.bags?, layout?, Option.map_eq_bind, Option.bind_eq_bind, Option.bind_assoc,
    ← mapM_bind, ← reader]
  rfl

/-- The keys that open, content by content. -/
def keys (safes : List Safe) : List Bytes :=
  safes.flatMap fun safe => safe.entries.filterMap StoredBag.key?

def certificates (safes : List Safe) : List Bytes :=
  safes.flatMap fun safe => safe.entries.filterMap StoredBag.certificate?

/-- The same is found in the bags of entries as in the entries themselves. -/
theorem filterMap_of_bags? {view : Bag → Option Bytes} {entries : List StoredBag} {bags : List Bag}
    (read : entries.mapM StoredBag.bag? = some bags) :
    bags.filterMap view = entries.filterMap fun entry => entry.meaning?.bind view := by
  induction entries generalizing bags with
  | nil =>
    cases read
    rfl
  | cons entry entries hypothesis =>
    simp only [List.mapM_cons, Option.bind_eq_bind, Option.bind_eq_some_iff, Option.pure_def,
      Option.some.injEq] at read
    obtain ⟨bag, found, later, rest, rfl⟩ := read
    rw [List.filterMap_cons, List.filterMap_cons, StoredBag.meaning?_of_bag? found, Option.bind_some,
      hypothesis rest]

theorem filterMap_of_layout {view : Bag → Option Bytes} {safes : List Safe} {bags : List (List Bag)}
    (read : safes.mapM Safe.bags? = some bags) : bags.flatten.filterMap view =
      safes.flatMap fun safe => safe.entries.filterMap fun entry => entry.meaning?.bind view := by
  induction safes generalizing bags with
  | nil =>
    cases read
    rfl
  | cons safe safes hypothesis =>
    simp only [List.mapM_cons, Option.bind_eq_bind, Option.bind_eq_some_iff, Option.pure_def,
      Option.some.injEq] at read
    obtain ⟨own, found, later, rest, rfl⟩ := read
    rw [List.flatten_cons, List.filterMap_append, List.flatMap_cons, filterMap_of_bags? found,
      hypothesis rest]

/-- One change of a layout. -/
inductive Change : List Safe → List Safe → Prop
  /-- One content is divided into two. -/
  | divide (content left right : Content) (first last : List StoredBag) :
      Change [⟨content, first ++ last⟩] [⟨left, first⟩, ⟨right, last⟩]
  /-- A content is stored in another way: plain, or under another cipher, salt or count. -/
  | store (content changed : Content) (entries : List StoredBag) :
      Change [⟨content, entries⟩] [⟨changed, entries⟩]
  | exchange (content : Content) (first last : List StoredBag) {key certificate : StoredBag}
      (isKey : key.type = Oid.shroudedKeyBag)
      (isCertificate : certificate.type = Oid.certificateBag) :
      Change [⟨content, first ++ key :: certificate :: last⟩]
        [⟨content, first ++ certificate :: key :: last⟩]
  | describe (content : Content) (first last : List StoredBag) (type value attributes changed : Bytes) :
      Change [⟨content, first ++ ⟨type, value, attributes⟩ :: last⟩]
        [⟨content, first ++ ⟨type, value, changed⟩ :: last⟩]
  | insertOther (content : Content) (first last : List StoredBag) {entry : StoredBag}
      (notKey : entry.type ≠ Oid.shroudedKeyBag) (notCertificate : entry.type ≠ Oid.certificateBag) :
      Change [⟨content, first ++ last⟩] [⟨content, first ++ entry :: last⟩]
  /-- A key is added, after a key that opens. -/
  | insertKey (before : List Safe) (content : Content) (first last : List StoredBag) {entry : StoredBag}
      (isKey : entry.type = Oid.shroudedKeyBag) (later : keys (before ++ [⟨content, first⟩]) ≠ []) :
      Change (before ++ [⟨content, first ++ last⟩]) (before ++ [⟨content, first ++ entry :: last⟩])
  | within (before after : List Safe) {safes changed : List Safe} (change : Change safes changed) :
      Change (before ++ safes ++ after) (before ++ changed ++ after)

theorem keys_append (safes others : List Safe) : keys (safes ++ others) = keys safes ++ keys others :=
  List.flatMap_append

theorem certificates_append (safes others : List Safe) :
    certificates (safes ++ others) = certificates safes ++ certificates others :=
  List.flatMap_append

theorem keys_singleton (content : Content) (entries : List StoredBag) :
    keys [⟨content, entries⟩] = entries.filterMap StoredBag.key? :=
  List.append_nil _

theorem certificates_singleton (content : Content) (entries : List StoredBag) :
    certificates [⟨content, entries⟩] = entries.filterMap StoredBag.certificate? :=
  List.append_nil _

/-- A change keeps the first key that opens, and all certificates. -/
theorem Change.keeps {safes changed : List Safe} (change : Change safes changed) :
    (keys safes).head? = (keys changed).head? ∧ certificates safes = certificates changed := by
  -- the keys are among the bags of one type, the certificates among those of another, so a bag that
  -- moves, comes or goes touches at most one of the two lists
  induction change with
  | divide content left right first last =>
    simp [keys, certificates]
  | store content changed entries => exact ⟨rfl, rfl⟩
  | @exchange content first last key certificate isKey isCertificate =>
    have noKey : certificate.key? = none := StoredBag.key?_eq_none (by rw [isCertificate]; decide)
    have noCertificate : key.certificate? = none :=
      StoredBag.certificate?_eq_none (by rw [isKey]; decide)
    simp only [keys_singleton, certificates_singleton, List.filterMap_append, List.filterMap_cons,
      noKey, noCertificate, and_self]
  | describe content first last type value attributes changed =>
    simp only [keys_singleton, certificates_singleton, List.filterMap_append, List.filterMap_cons]
    exact ⟨rfl, rfl⟩
  | @insertOther content first last entry notKey notCertificate =>
    simp only [keys_singleton, certificates_singleton, List.filterMap_append, List.filterMap_cons,
      StoredBag.key?_eq_none notKey, StoredBag.certificate?_eq_none notCertificate, and_self]
  | @insertKey before content first last entry isKey later =>
    have noCertificate : entry.certificate? = none :=
      StoredBag.certificate?_eq_none (by rw [isKey]; decide)
    simp only [keys_append, keys_singleton, certificates_append, certificates_singleton,
      List.filterMap_append, List.filterMap_cons, noCertificate] at later ⊢
    obtain ⟨key, others, earlier⟩ := List.exists_cons_of_ne_nil later
    simp only [← List.append_assoc, earlier, List.cons_append, List.head?_cons, and_self]
  | @within before after safes changed change hypothesis =>
    simp only [keys_append, certificates_append, List.head?_append, hypothesis.1, hypothesis.2,
      and_self]

/-- Any number of changes keeps them. -/
theorem keeps_of_changes {safes changed : List Safe} (changes : Relation.EqvGen Change safes changed) :
    (keys safes).head? = (keys changed).head? ∧ certificates safes = certificates changed := by
  induction changes with
  | rel _ _ change => exact change.keeps
  | refl => exact ⟨rfl, rfl⟩
  | symm _ _ _ hypothesis => exact ⟨hypothesis.1.symm, hypothesis.2.symm⟩
  | trans _ _ _ _ _ earlier later =>
    exact ⟨earlier.1.trans later.1, earlier.2.trans later.2⟩

/-- The octets are an archive that passes its integrity check, with this layout. -/
def HasLayout (octets : Bytes) (safes : List Safe) : Prop :=
  ∃ archive, read? octets = some archive ∧ archive.isIntact = true ∧ archive.layout? = some safes

theorem existsUnique_layout {octets : Bytes} {bags : List Bag} (holds : Holds octets bags) :
    ∃! safes, HasLayout octets safes := by
  obtain ⟨archive, read, intact, opened⟩ := holds
  rw [bags?_eq] at opened
  obtain ⟨lists, found, -⟩ := Option.map_eq_some_iff.mp opened
  obtain ⟨safes, laid, -⟩ := Option.bind_eq_some_iff.mp found
  refine ⟨safes, ⟨archive, read, intact, laid⟩, ?_⟩
  rintro others ⟨other, again, -, laidOut⟩
  obtain rfl := Option.some.inj (read.symm.trans again)
  exact Option.some.inj (laidOut.symm.trans laid)

/-- What the bags of an archive hold is found in its layout. -/
theorem filterMap_of_hasLayout {octets : Bytes} {bags : List Bag} (holds : Holds octets bags)
    {safes : List Safe} (laid : HasLayout octets safes) :
    bags.filterMap Bag.key? = keys safes ∧ bags.filterMap Bag.certificate? = certificates safes := by
  obtain ⟨archive, read, -, opened⟩ := holds
  obtain ⟨other, again, -, laid⟩ := laid
  obtain rfl := Option.some.inj (read.symm.trans again)
  rw [bags?_eq, laid, Option.bind_some] at opened
  obtain ⟨lists, found, rfl⟩ := Option.map_eq_some_iff.mp opened
  exact ⟨filterMap_of_layout found, filterMap_of_layout found⟩

end Archive

namespace Signer

/-- Two archives with the same keys and the same certificates, content by content, make the same
signer or fail the same way; of the keys the first one is enough. So any number of changes of the
layout makes no difference. -/
theorem ofArchive_layout {files others : Files} {path other : String} {octets changed : Bytes}
    (present : files.read path = .ok octets) (presentToo : others.read other = .ok changed)
    {bags changedBags : List Archive.Bag} (holds : Archive.Holds octets bags)
    (holdsToo : Archive.Holds changed changedBags) :
    (∃! safes, Archive.HasLayout octets safes) ∧ (∃! safes, Archive.HasLayout changed safes) ∧
    (∀ safes changedSafes, Archive.HasLayout octets safes → Archive.HasLayout changed changedSafes →
      (Archive.keys safes = Archive.keys changedSafes →
        Archive.certificates safes = Archive.certificates changedSafes →
        ofArchive files path = ofArchive others other) ∧
      ((Archive.keys safes).head? = (Archive.keys changedSafes).head? →
        Archive.certificates safes = Archive.certificates changedSafes →
        ofArchive files path = ofArchive others other) ∧
      (Relation.EqvGen Archive.Change safes changedSafes →
        ofArchive files path = ofArchive others other)) ∧
    ∀ signer, ofArchive files path = .ok signer → signer.chain = [] := by
  refine ⟨Archive.existsUnique_layout holds, Archive.existsUnique_layout holdsToo, ?_, ?_⟩
  · intro safes changedSafes laid laidToo
    obtain ⟨keys, certificates⟩ := Archive.filterMap_of_hasLayout holds laid
    obtain ⟨keysToo, certificatesToo⟩ := Archive.filterMap_of_hasLayout holdsToo laidToo
    have same : (Archive.keys safes).head? = (Archive.keys changedSafes).head? →
        Archive.certificates safes = Archive.certificates changedSafes →
        ofArchive files path = ofArchive others other := by
      intro sameKey sameCertificates
      rw [ofArchive_eq_select present holds, ofArchive_eq_select presentToo holdsToo, keys,
        certificates, keysToo, certificatesToo, sameKey, sameCertificates]
    refine ⟨fun sameKeys => same (congrArg List.head? sameKeys), same, ?_⟩
    intro changes
    exact same (Archive.keeps_of_changes changes).1 (Archive.keeps_of_changes changes).2
  · intro signer built
    rw [ofArchive_eq_select present holds] at built
    cases found : Archive.select (bags.filterMap Archive.Bag.key?).head?
        (bags.filterMap Archive.Bag.certificate?) with
    | error failure =>
      rw [found] at built
      cases built
    | ok selected =>
      rw [found] at built
      cases built
      rfl

end Signer

namespace Archive
open Der

/-- The certificate of the small key with a name for it. -/
def describedCertificateBag : Bytes :=
  writeSequence [write 0x06 Oid.certificateBag,
    write 0xa0 (writeSequence [write 0x06 Oid.x509, write 0xa0 (write 0x04 smallCertificate)]),
    write 0x31 (writeSequence [write 0x06 Oid.localKeyId, write 0x31 (write 0x04 [0x01])])]

/-- An archive with the certificate first, in a content of its own, and with the small key between
one that is not shrouded and one that does not open. -/
def dividedArchive : Bytes :=
  writeSequence [write 0x02 [3], writeData (writeSequence [
    writeData (writeSequence [describedCertificateBag]),
    writeData (writeSequence [plainKeyBag, smallKeyBag, foreignKeyBag])])]

theorem holds_divided : Holds dividedArchive [.certificate smallCertificate, .other Oid.keyBag,
    smallShroudedKey, .shroudedKey .other [0x00]] := by
  let safe : Bytes := writeSequence [writeData (writeSequence [describedCertificateBag]),
    writeData (writeSequence [plainKeyBag, smallKeyBag, foreignKeyBag])]
  exact ⟨⟨.plain safe, none⟩, by decide +kernel, rfl, by decide +kernel⟩

end Archive

namespace Signer

/-- It makes the same signer as the archive with just the small key and the certificate. -/
theorem ofArchive_layout_divided :
    let octets := Archive.writePlain [Archive.smallKeyBag, Archive.smallCertificateBag] []
    octets ≠ Archive.dividedArchive ∧ ofArchive ⟨[(["archive"], .file octets)]⟩ "archive" =
      ofArchive ⟨[(["archive"], .file Archive.dividedArchive)]⟩ "archive" := by
  intro octets
  refine ⟨by decide +kernel, ?_⟩
  let files : Files := ⟨[(["archive"], .file octets)]⟩
  let others : Files := ⟨[(["archive"], .file Archive.dividedArchive)]⟩
  have present : files.read "archive" = .ok octets := rfl
  have presentToo : others.read "archive" = .ok Archive.dividedArchive := rfl
  obtain ⟨⟨safes, laid, -⟩, ⟨changed, laidToo, -⟩, same, -⟩ :=
    ofArchive_layout present presentToo Archive.holds_small Archive.holds_divided
  obtain ⟨keys, certificates⟩ := Archive.filterMap_of_hasLayout Archive.holds_small laid
  obtain ⟨keysToo, certificatesToo⟩ := Archive.filterMap_of_hasLayout Archive.holds_divided laidToo
  have sameKeys : Archive.keys safes = Archive.keys changed := by
    rw [← keys, ← keysToo, List.filterMap_cons_some Archive.key?_smallShroudedKey,
      List.filterMap_cons_none rfl, List.filterMap_cons_none rfl, List.filterMap_cons_none rfl,
      List.filterMap_cons_some Archive.key?_smallShroudedKey, List.filterMap_cons_none rfl]
  have sameCertificates : Archive.certificates safes = Archive.certificates changed := by
    rw [← certificates, ← certificatesToo]
    rfl
  exact (same safes changed laid laidToo).1 sameKeys sameCertificates

end Signer
end CredentialSigning
