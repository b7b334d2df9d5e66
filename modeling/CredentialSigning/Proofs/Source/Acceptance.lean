import CredentialSigning.Proofs.Json.Grammar
import CredentialSigning.Signer.Source

/-! Which JSON texts describe which source. Of the members of an object only the kind and the fields
of that kind count, each of which stands once; everything else, in whatever order and however it is
written, makes no difference. -/

namespace CredentialSigning.Source

def Absent (members : List (String × Json)) (name : String) : Prop :=
  ∀ member ∈ members, member.1 ≠ name

/-- There is one member with a name, and it has the value. -/
def Only (members : List (String × Json)) (name : String) (value : Json) : Prop :=
  ∃ before after, members = before ++ (name, value) :: after ∧ Absent before name ∧ Absent after name

/-- A member that may be left out or null. -/
def Optional (members : List (String × Json)) (name : String) : Option String → Prop
  | none => Absent members name ∨ Only members name .null
  | some text => Only members name (.string text)

/-- The members of an object that describes a source. -/
def Describes (members : List (String × Json)) : Source → Prop
  | archive path =>
    Only members "source" (.string "pkcs12") ∧ Only members "path" (.string path)
  | pem certificate key chain =>
    Only members "source" (.string "pem") ∧ Only members "certificate" (.string certificate) ∧
      Only members "private_key" (.string key) ∧ Optional members "certificate_chain" chain

/-- The fields of a kind of source, in their order. -/
def fieldNames : String → List String
  | "pkcs12" => ["path"]
  | "pem" => ["certificate", "private_key", "certificate_chain"]
  | _ => []

theorem filter_eq_nil_iff {members : List (String × Json)} {name : String} :
    members.filter (·.1 = name) = [] ↔ Absent members name := by
  simp [List.filter_eq_nil_iff, Absent]

theorem member_eq_absent_iff {members : List (String × Json)} {name : String} :
    member members name = .absent ↔ Absent members name := by
  rw [← filter_eq_nil_iff, member]
  split
  · rename_i empty
    exact iff_of_true rfl empty
  · rename_i entry single
    simp [single]
  · rename_i some several
    exact iff_of_false (nomatch ·) some

theorem member_eq_only_iff {members : List (String × Json)} {name : String} {value : Json} :
    member members name = .only value ↔ Only members name value := by
  constructor
  · intro found
    unfold member at found
    split at found
    · cases found
    · rename_i entry filtered
      obtain ⟨before, after, rfl, absentBefore, named, absentAfter⟩ :=
        List.filter_eq_cons_iff.mp filtered
      obtain ⟨name', value'⟩ := entry
      simp only [decide_eq_true_eq] at named
      subst named
      cases found
      exact ⟨before, after, rfl, by simpa [Absent] using absentBefore,
        filter_eq_nil_iff.mp absentAfter⟩
    · cases found
  · rintro ⟨before, after, rfl, absentBefore, absentAfter⟩
    rw [member, List.filter_append, List.filter_cons_of_pos (by simp),
      filter_eq_nil_iff.mpr absentBefore, filter_eq_nil_iff.mpr absentAfter]
    rfl

theorem required?_eq_some_iff {members : List (String × Json)} {name text : String} :
    required? members name = some text ↔ Only members name (.string text) := by
  rw [← member_eq_only_iff, required?]
  cases found : member members name with
  | only value => cases value <;> simp [text?]
  | _ => simp

theorem optional?_eq_some_iff {members : List (String × Json)} {name : String}
    {chain : Option String} :
    optional? members name = some chain ↔ Optional members name chain := by
  cases chain with
  | none =>
    rw [Optional, ← member_eq_absent_iff, ← member_eq_only_iff, optional?]
    cases found : member members name with
    | only value => cases value <;> simp [nullable?]
    | _ => simp
  | some text =>
    rw [Optional, ← member_eq_only_iff, optional?]
    cases found : member members name with
    | only value => cases value <;> simp [nullable?]
    | _ => simp

/-- An object describes a source in one way. -/
theorem ofJson?_object_eq_some_iff {members : List (String × Json)} {source : Source} :
    ofJson? (.object members) = some source ↔ Describes members source := by
  rw [ofJson?, Option.bind_eq_some_iff]
  constructor
  · rintro ⟨kind, named, built⟩
    unfold ofMembers? at built
    split at built
    · obtain ⟨path, found, rfl⟩ := Option.map_eq_some_iff.mp built
      exact ⟨required?_eq_some_iff.mp named, required?_eq_some_iff.mp found⟩
    · simp only [Option.bind_eq_bind, Option.bind_eq_some_iff, Option.some.injEq] at built
      obtain ⟨certificate, readCertificate, key, readKey, chain, readChain, rfl⟩ := built
      exact ⟨required?_eq_some_iff.mp named, required?_eq_some_iff.mp readCertificate,
        required?_eq_some_iff.mp readKey, optional?_eq_some_iff.mp readChain⟩
    · cases built
  · intro describes
    cases source with
    | archive path =>
      obtain ⟨named, found⟩ := describes
      refine ⟨"pkcs12", required?_eq_some_iff.mpr named, ?_⟩
      rw [ofMembers?, required?_eq_some_iff.mpr found, Option.map_some]
    | pem certificate key chain =>
      obtain ⟨named, readCertificate, readKey, readChain⟩ := describes
      refine ⟨"pem", required?_eq_some_iff.mpr named, ?_⟩
      simp only [ofMembers?, required?_eq_some_iff.mpr readCertificate,
        required?_eq_some_iff.mpr readKey, optional?_eq_some_iff.mpr readChain,
        Option.bind_eq_bind, Option.bind_some]

/-- A member depends on what has its name, in any order. -/
theorem member_congr {members others : List (String × Json)} {name : String}
    (same : (members.filter (·.1 = name)).Perm (others.filter (·.1 = name))) :
    member members name = member others name := by
  unfold member
  generalize members.filter (·.1 = name) = found at same ⊢
  generalize others.filter (·.1 = name) = other at same ⊢
  rcases found with _ | ⟨first, _ | ⟨second, found⟩⟩
  · rw [List.nil_perm.mp same]
  · rw [List.singleton_perm.mp same]
  · have length := same.length_eq
    rcases other with _ | ⟨first', _ | ⟨second', other⟩⟩
    · simp at length
    · simp at length
    · rfl

theorem member_congr_of_mem {members others : List (String × Json)} {names : List String}
    (same : (members.filter (·.1 ∈ names)).Perm (others.filter (·.1 ∈ names))) {name : String}
    (asked : name ∈ names) : member members name = member others name := by
  apply member_congr
  have within (list : List (String × Json)) : (list.filter (·.1 ∈ names)).filter (·.1 = name) =
      list.filter (·.1 = name) := by
    rw [List.filter_filter]
    apply List.filter_congr
    intro entry _
    by_cases named : entry.1 = name <;> simp [named, asked]
  rw [← within members, ← within others]
  exact same.filter _

theorem member_eq_only_or_repeated {members : List (String × Json)} {name : String} {value : Json}
    (present : (name, value) ∈ members) :
    member members name = .only value ∨ member members name = .repeated := by
  have found : (name, value) ∈ members.filter (·.1 = name) := by simp [present]
  unfold member
  split
  · rename_i empty
    rw [empty] at found
    cases found
  · rename_i entry single
    rw [single] at found
    rw [← List.mem_singleton.mp found]
    exact .inl rfl
  · exact .inr rfl

theorem required?_congr {members others : List (String × Json)} {name : String}
    (same : member members name = member others name) :
    required? members name = required? others name := by
  rw [required?, required?, same]

theorem optional?_congr {members others : List (String × Json)} {name : String}
    (same : member members name = member others name) :
    optional? members name = optional? others name := by
  rw [optional?, optional?, same]

/-- A kind of source depends on its own fields. -/
theorem ofMembers?_congr {members others : List (String × Json)} {kind : String}
    (same : ∀ name ∈ fieldNames kind, member members name = member others name) :
    ofMembers? members kind = ofMembers? others kind := by
  unfold ofMembers?
  split
  · rw [required?_congr (same "path" (by decide))]
  · rw [required?_congr (same "certificate" (by decide)),
      required?_congr (same "private_key" (by decide)),
      optional?_congr (same "certificate_chain" (by decide))]
  · rfl

theorem ofJson?_object_congr {members others : List (String × Json)} {kind : String}
    (named : ("source", .string kind) ∈ members)
    (same : ∀ name ∈ "source" :: fieldNames kind, member members name = member others name) :
    ofJson? (.object members) = ofJson? (.object others) := by
  have kinds : required? members "source" = required? others "source" :=
    required?_congr (same "source" List.mem_cons_self)
  rw [ofJson?, ofJson?, ← kinds]
  rcases member_eq_only_or_repeated named with only | repeated
  · have read : required? members "source" = some kind := by
      rw [required?, only]
      rfl
    rw [read, Option.bind_some, Option.bind_some]
    apply ofMembers?_congr
    intro name field
    exact same name (List.mem_cons_of_mem _ field)
  · have unread : required? members "source" = none := by rw [required?, repeated]
    rw [unread]
    rfl

/-- The order of members makes no difference. -/
theorem ofJson?_object_perm {members others : List (String × Json)} (same : members.Perm others) :
    ofJson? (.object members) = ofJson? (.object others) := by
  have each (name : String) : member members name = member others name :=
    member_congr (same.filter _)
  rw [ofJson?, ofJson?, required?_congr (each "source")]
  congr 1
  funext kind
  exact ofMembers?_congr fun name _ => each name

/-- Nor does a chain of null. -/
theorem ofJson?_object_null {before after : List (String × Json)}
    (absent : Absent (before ++ after) "certificate_chain") :
    ofJson? (.object (before ++ ("certificate_chain", .null) :: after)) =
      ofJson? (.object (before ++ after)) := by
  have others (name : String) (different : name ≠ "certificate_chain") :
      member (before ++ ("certificate_chain", .null) :: after) name =
        member (before ++ after) name := by
    apply member_congr
    rw [List.filter_append, List.filter_append,
      List.filter_cons_of_neg (by simpa using different.symm)]
  have chain : optional? (before ++ ("certificate_chain", .null) :: after) "certificate_chain" =
      optional? (before ++ after) "certificate_chain" := by
    have absentBefore : Absent before "certificate_chain" :=
      fun entry inside => absent entry (List.mem_append_left _ inside)
    have absentAfter : Absent after "certificate_chain" :=
      fun entry inside => absent entry (List.mem_append_right _ inside)
    have null : Optional (before ++ ("certificate_chain", .null) :: after) "certificate_chain" none :=
      Or.inr ⟨before, after, rfl, absentBefore, absentAfter⟩
    have missing : Optional (before ++ after) "certificate_chain" none := Or.inl absent
    rw [optional?_eq_some_iff.mpr null, optional?_eq_some_iff.mpr missing]
  rw [ofJson?, ofJson?, required?_congr (others "source" (by decide))]
  congr 1
  funext kind
  unfold ofMembers?
  split
  · rw [required?_congr (others "path" (by decide))]
  · rw [required?_congr (others "certificate" (by decide)),
      required?_congr (others "private_key" (by decide)), chain]
  · rfl

theorem fieldNames_eq_nil {kind : String} (notArchive : kind ≠ "pkcs12") (notPem : kind ≠ "pem") :
    fieldNames kind = [] := by
  unfold fieldNames
  split
  · exact absurd rfl notArchive
  · exact absurd rfl notPem
  · rfl

theorem ofMembers?_eq_none (members : List (String × Json)) {kind : String}
    (notArchive : kind ≠ "pkcs12") (notPem : kind ≠ "pem") : ofMembers? members kind = none := by
  unfold ofMembers?
  split
  · exact absurd rfl notArchive
  · exact absurd rfl notPem
  · rfl

theorem source_notMem_fieldNames (kind : String) : "source" ∉ fieldNames kind := by
  unfold fieldNames
  split <;> decide

theorem ofFields?_nil (kind : String) : ofFields? kind [] = none := by
  unfold ofFields?
  split <;> first | rfl | contradiction

theorem ofFields?_archive {fields : List Json} (fits : fields.length ≤ 1) :
    ofFields? "pkcs12" fields =
      ofMembers? (("source", .string "pkcs12") :: ["path"].zip fields) "pkcs12" := by
  match fields, fits with
  | [], _ => rfl
  | [path], _ => cases path <;> rfl

theorem ofFields?_pem {fields : List Json} (fits : fields.length ≤ 3) :
    ofFields? "pem" fields = ofMembers? (("source", .string "pem") ::
      ["certificate", "private_key", "certificate_chain"].zip fields) "pem" := by
  match fields, fits with
  | [], _ => rfl
  | [certificate], _ => cases certificate <;> rfl
  | [certificate, key], _ => cases certificate <;> cases key <;> rfl
  | [certificate, key, chain], _ => cases certificate <;> cases key <;> cases chain <;> rfl

/-- The fields in their order describe what the members with their names describe. -/
theorem ofJson?_array {kind : String} {fields : List Json}
    (fits : fields.length ≤ (fieldNames kind).length) :
    ofJson? (.array (.string kind :: fields)) =
      ofJson? (.object (("source", .string kind) :: (fieldNames kind).zip fields)) := by
  have named : required? (("source", .string kind) :: (fieldNames kind).zip fields) "source" =
      some kind := by
    rw [required?_eq_some_iff]
    refine ⟨[], (fieldNames kind).zip fields, rfl, List.forall_mem_nil _, ?_⟩
    rintro entry inside same
    have field : entry.1 ∈ fieldNames kind := (List.of_mem_zip inside).1
    rw [same] at field
    exact source_notMem_fieldNames kind field
  rw [ofJson?, ofJson?, named, Option.bind_some]
  rcases eq_or_ne kind "pkcs12" with rfl | notArchive
  · exact ofFields?_archive fits
  · rcases eq_or_ne kind "pem" with rfl | notPem
    · exact ofFields?_pem fits
    · rw [fieldNames_eq_nil notArchive notPem] at fits
      obtain rfl := List.length_eq_zero_iff.mp (Nat.le_zero.mp fits)
      rw [ofMembers?_eq_none _ notArchive notPem, ofFields?_nil]

/-- Values that nest at most a hundred containers. -/
def Shallow (values : List Json) : Prop :=
  ∀ value ∈ values, value.depth ≤ 100

theorem read?_object {text : String} {members : List (String × Json)}
    (denotes : Json.Denotes text (.object members)) (shallow : Shallow (members.map (·.2))) :
    read? text = ofJson? (.object members) := by
  have inside : Json.depthOfMembers members ≤ 100 :=
    Json.depthOfMembers_le fun member present => shallow _ (List.mem_map_of_mem present)
  have fits : (Json.object members).depth ≤ Json.nestingLimit :=
    Nat.le_trans (Nat.succ_le_succ inside) (by decide)
  rw [read?, Json.read?_of_denotes denotes fits, Option.bind_some]

theorem read?_array {text kind : String} {fields : List Json}
    (denotes : Json.Denotes text (.array (.string kind :: fields))) (shallow : Shallow fields) :
    read? text = ofJson? (.array (.string kind :: fields)) := by
  have inside : Json.depthOfItems (.string kind :: fields) ≤ 100 := by
    apply Json.depthOfItems_le
    intro item present
    rcases List.mem_cons.mp present with rfl | field
    · exact Nat.zero_le 100
    · exact shallow item field
  have fits : (Json.array (.string kind :: fields)).depth ≤ Json.nestingLimit :=
    Nat.le_trans (Nat.succ_le_succ inside) (by decide)
  rw [read?, Json.read?_of_denotes denotes fits, Option.bind_some]

/-- A text in which a string has half of a pair by itself is refused. Every other text of an object
is read as the source that its members describe, if there is one; so only the kind and the fields of
that kind count, in whatever order, and a chain of null is no chain. The array of the kind and its
fields is read as the object is. -/
theorem read?_exact :
    (∀ text tree, Json.Writes text.toList tree → tree.value? = none → read? text = none) ∧
    (∀ text members, Json.Denotes text (.object members) → Shallow (members.map (·.2)) →
      ∀ source, read? text = some source ↔ Describes members source) ∧
    (∀ text other members others, Json.Denotes text (.object members) →
      Json.Denotes other (.object others) → Shallow (members.map (·.2)) →
      Shallow (others.map (·.2)) →
      (members.Perm others → read? text = read? other) ∧
      (∀ kind, ("source", .string kind) ∈ members →
        (members.filter (·.1 ∈ "source" :: fieldNames kind)).Perm
          (others.filter (·.1 ∈ "source" :: fieldNames kind)) → read? text = read? other) ∧
      (∀ before after, members = before ++ ("certificate_chain", .null) :: after →
        others = before ++ after → Absent others "certificate_chain" →
        read? text = read? other)) ∧
    (∀ text other kind fields, fields.length ≤ (fieldNames kind).length → Shallow fields →
      Json.Denotes text (.array (.string kind :: fields)) →
      Json.Denotes other (.object (("source", .string kind) :: (fieldNames kind).zip fields)) →
      read? text = read? other) := by
  refine ⟨?_, ?_, ?_, ?_⟩
  · intro text tree writes meaningless
    have fits : ∀ value, tree.value? = some value → value.depth ≤ Json.nestingLimit := by
      intro value meant
      rw [meaningless] at meant
      cases meant
    rw [read?, Json.read?_of_writes writes fits, meaningless, Option.bind_none]
  · intro text members denotes shallow source
    rw [read?_object denotes shallow, ofJson?_object_eq_some_iff]
  · intro text other members others denotes denotesOther shallow shallowOther
    rw [read?_object denotes shallow, read?_object denotesOther shallowOther]
    refine ⟨ofJson?_object_perm, ?_, ?_⟩
    · intro kind named same
      exact ofJson?_object_congr named fun name asked => member_congr_of_mem same asked
    · rintro before after rfl rfl absent
      exact ofJson?_object_null absent
  · intro text other kind fields fits shallow denotes denotesOther
    have shallowOther : Shallow (((("source", .string kind) :: (fieldNames kind).zip fields) :
        List (String × Json)).map (·.2)) := by
      intro value present
      obtain ⟨member, inside, rfl⟩ := List.mem_map.mp present
      rcases List.mem_cons.mp inside with rfl | field
      · exact Nat.zero_le 100
      · exact shallow _ (List.of_mem_zip field).2
    rw [read?_array denotes shallow, read?_object denotesOther shallowOther, ofJson?_array fits]

/-- An escaped name stands for the name, the members may change places, and the array of the kind and
the path is read as the object. -/
theorem read?_exact_small :
    let text := "\x7b\"\\u0070ath\":\"p\",\"source\":\"pkcs12\"\x7d"
    let ordered := "\x7b\"source\":\"pkcs12\",\"path\":\"p\"\x7d"
    let array := "[\"pkcs12\",\"p\"]"
    read? text = some (archive "p") ∧ read? text = read? ordered ∧ read? array = read? ordered := by
  intro text ordered array
  have zero : ('0', 0) ∈ Json.hexDigits := by decide +kernel
  have seven : ('7', 7) ∈ Json.hexDigits := by decide +kernel
  have name : Json.WritesPieces ['\\', 'u', '0', '0', '7', '0', 'a', 't', 'h']
      (.unit 0x70 :: Json.plainPieces "ath") :=
    .unit zero zero seven zero (Json.writesPieces_plain rfl)
  have denotes : Json.Denotes text
      (.object [("path", .string "p"), ("source", .string "pkcs12")]) := by
    have spelled : text.toList = '\x7b' :: (('"' :: (['\\', 'u', '0', '0', '7', '0', 'a', 't', 'h'] ++
        ['"'])) ++ ':' :: (Json.quoted "p" ++
        ',' :: (Json.quoted "source" ++ ':' :: (Json.quoted "pkcs12" ++ ['\x7d'])))) := by
      decide +kernel
    refine ⟨.object [(.unit 0x70 :: Json.plainPieces "ath", .string (Json.plainPieces "p")),
      (Json.plainPieces "source", .string (Json.plainPieces "pkcs12"))], ?_, rfl⟩
    rw [spelled]
    exact .object (.string name) (Json.writes_quoted rfl)
      (.next (Json.writes_quoted rfl) (Json.writes_quoted rfl) .last)
  have denotesOrdered : Json.Denotes ordered
      (.object [("source", .string "pkcs12"), ("path", .string "p")]) := by
    have spelled : ordered.toList = '\x7b' :: (Json.quoted "source" ++ ':' :: (Json.quoted "pkcs12" ++
        ',' :: (Json.quoted "path" ++ ':' :: (Json.quoted "p" ++ ['\x7d'])))) := by
      decide +kernel
    refine ⟨.object [(Json.plainPieces "source", .string (Json.plainPieces "pkcs12")),
      (Json.plainPieces "path", .string (Json.plainPieces "p"))], ?_, rfl⟩
    rw [spelled]
    exact .object (Json.writes_quoted rfl) (Json.writes_quoted rfl)
      (.next (Json.writes_quoted rfl) (Json.writes_quoted rfl) .last)
  have denotesArray : Json.Denotes array (.array [.string "pkcs12", .string "p"]) := by
    have spelled : array.toList =
        '[' :: (Json.quoted "pkcs12" ++ ',' :: (Json.quoted "p" ++ [']'])) := by
      decide +kernel
    refine ⟨.array [.string (Json.plainPieces "pkcs12"), .string (Json.plainPieces "p")], ?_, rfl⟩
    rw [spelled]
    exact .array (Json.writes_quoted rfl) (.next (Json.writes_quoted rfl) .last)
  have shallow (texts : List String) : Shallow (texts.map .string) := by
    intro value present
    obtain ⟨text, -, rfl⟩ := List.mem_map.mp present
    exact Nat.zero_le 100
  have describes : Describes [("path", .string "p"), ("source", .string "pkcs12")] (archive "p") :=
    ofJson?_object_eq_some_iff.mp rfl
  obtain ⟨-, accepted, invariant, positional⟩ := read?_exact
  refine ⟨?_, ?_, ?_⟩
  · exact (accepted text _ denotes (shallow ["p", "pkcs12"]) (archive "p")).mpr describes
  · exact (invariant text ordered _ _ denotes denotesOrdered (shallow ["p", "pkcs12"])
      (shallow ["pkcs12", "p"])).1 (List.Perm.swap _ _ _)
  · exact positional array ordered "pkcs12" [.string "p"] (by decide) (shallow ["p"]) denotesArray
      denotesOrdered

/-- A member that counts for nothing makes a text refused if it has half of a pair by itself. -/
theorem read?_lone_half :
    let text := "\x7b\"source\":\"pkcs12\",\"path\":\"p\",\"x\":\"\\ud800\"\x7d"
    ∃ members : List (List Json.Piece × Json.Tree),
      Json.Writes text.toList (.object members) ∧
      members.map (fun member => ((Json.meaning? member.1).map String.ofList, member.2.value?)) =
        [(some "source", some (.string "pkcs12")), (some "path", some (.string "p")),
          (some "x", none)] ∧
      read? text = none := by
  intro text
  have d : ('d', 13) ∈ Json.hexDigits := by decide +kernel
  have eight : ('8', 8) ∈ Json.hexDigits := by decide +kernel
  have zero : ('0', 0) ∈ Json.hexDigits := by decide +kernel
  have half : Json.WritesPieces ['\\', 'u', 'd', '8', '0', '0'] [.unit 0xd800] :=
    .unit d eight zero zero .nil
  have spelled : text.toList = '\x7b' :: (Json.quoted "source" ++ ':' :: (Json.quoted "pkcs12" ++
      ',' :: (Json.quoted "path" ++ ':' :: (Json.quoted "p" ++
      ',' :: (Json.quoted "x" ++ ':' :: (('"' :: (['\\', 'u', 'd', '8', '0', '0'] ++ ['"'])) ++
      ['\x7d'])))))) := by
    decide +kernel
  refine ⟨[(Json.plainPieces "source", .string (Json.plainPieces "pkcs12")),
    (Json.plainPieces "path", .string (Json.plainPieces "p")),
    (Json.plainPieces "x", .string [.unit 0xd800])], ?_, rfl, by decide +kernel⟩
  rw [spelled]
  exact .object (Json.writes_quoted rfl) (Json.writes_quoted rfl)
    (.next (Json.writes_quoted rfl) (Json.writes_quoted rfl)
      (.next (Json.writes_quoted rfl) (.string half) .last))

end CredentialSigning.Source
