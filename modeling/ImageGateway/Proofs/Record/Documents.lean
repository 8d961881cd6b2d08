import ImageGateway.Proofs.Json.Canonical
import ImageGateway.Record.Json

/-!
# Documents of records

A stored list of records is read back record by record (`ofDocument?_document`), and so is the list
that a response carries (`listOfJson?_compactList`). What a record is read back as is
`Record.reread`: the same record with its parameters as they are read back. It has the same number
(`id_of_reread`), and it is the same record exactly when the parameters are not nested too deep,
provided that they are in order and that their numbers are read back as themselves
(`reread_eq_some_iff`).
-/

set_option autoImplicit false

namespace ImageGateway.Record

open Json

/-- How deep the parameters of a record in a list may be nested: the list and the record are nested
around them. -/
def listedDepth : Nat := maxDepth - 2

/-- What a record of a list is read back as. -/
def reread (r : Record) : Option Record :=
  ((Value.object r.taskData).reread listedDepth).bind fun v =>
    v.object?.map fun taskData => { r with taskData }

/-! ## One record -/

/-- The field that a member with one of the keys of a record is. -/
def fieldOfKey? (key : String) (v : Value) : Option Field :=
  if key = "imageName" then imageNameOf? v
  else if key = "taskData" then taskDataOf? v
  else if key = "genTime" then genTimeOf? v
  else if key = "ID" then idOf? v
  else seedOf? v

/-- The keys under which a record is written. -/
def keys : List String := ["imageName", "taskData", "genTime", "ID", "seed"]

theorem named_of_mem_keys {key : String} (h : key ∈ keys) (depth : Nat) :
    named depth key = fieldOf depth (fieldOfKey? key) := by
  simp only [keys, List.mem_cons, List.not_mem_nil, or_false] at h
  rcases h with rfl | rfl | rfl | rfl | rfl <;> rfl

theorem fieldOf_spaced {s : Spacing} (hs : s.IsBlank) (level depth : Nat)
    (f : Value → Option Field) (v : Value) {rest : Bytes} (hrest : EndsNumber rest) :
    fieldOf depth f (v.spaced s level ++ rest)
      = ((v.reread depth).bind f).map fun field => (field, rest) := by
  rw [fieldOf, value_spaced hs v level depth rest hrest]
  cases v.reread depth with
  | none => rfl
  | some w => cases hf : f w <;> simp [hf]

theorem reread_ofWord (n : UInt64) (depth : Nat) :
    (Value.ofWord n).reread depth = some (.ofWord n) := by
  have word : Number.isWord (.integer n.toNat) = true := by
    have bound := n.toNat_lt
    have size : UInt64.size = 2 ^ 64 := rfl
    simp only [Number.isWord, Bool.and_eq_true, decide_eq_true_eq]
    omega
  have same := reread_of_isWord word
  rw [Value.ofWord]
  cases depth <;> simp [Value.reread, same]

theorem word?_ofWord (n : UInt64) : (Value.ofWord n).word? = some n := by
  have bound := n.toNat_lt
  have range : (0 : Int) ≤ n.toNat ∧ (n.toNat : Int) < UInt64.size := by
    have size : UInt64.size = 2 ^ 64 := rfl
    omega
  rw [Value.ofWord, Value.word?, if_pos range, Int.toNat_natCast, UInt64.ofNat_toNat]

theorem seedOf?_ofWord (n : UInt64) : seedOf? (.ofWord n) = some (.seed (some n)) := by
  have word := word?_ofWord n
  rw [Value.ofWord] at word ⊢
  rw [seedOf?, word]
  · rfl
  · simp

theorem reread_string (s : String) (depth : Nat) :
    (Value.string s).reread depth = some (.string s) := by
  cases depth <;> rfl

/-- The members that a record is written as. -/
def members (r : Record) : List (String × Value) :=
  [("imageName", .string r.imageName), ("taskData", .object r.taskData),
      ("genTime", .ofWord r.genTime), ("ID", .ofWord r.id)]
    ++ match r.seed with
      | some seed => [("seed", .ofWord seed)]
      | none => []

theorem toValue_eq_members (r : Record) : r.toValue = .object r.members := rfl

/-- The field that a member of a record is read as. -/
def fieldOfMember? (depth : Nat) (m : String × Value) : Option Field :=
  (m.2.reread depth).bind (fieldOfKey? m.1)

/-- The fields of a record with other parameters. -/
def fieldsWith (r : Record) (taskData : Members) : List Field :=
  [.imageName r.imageName, .taskData taskData, .genTime r.genTime, .id r.id]
    ++ match r.seed with
      | some seed => [.seed (some seed)]
      | none => []

theorem mapM_fieldOfMember? (r : Record) (depth : Nat) :
    r.members.mapM (fieldOfMember? depth)
      = (((Value.object r.taskData).reread depth).bind Value.object?).map r.fieldsWith := by
  have imageName : fieldOfMember? depth ("imageName", .string r.imageName)
      = some (.imageName r.imageName) := by
    rw [fieldOfMember?, reread_string]
    rfl
  have taskData : fieldOfMember? depth ("taskData", .object r.taskData)
      = (((Value.object r.taskData).reread depth).bind Value.object?).map .taskData := by
    rw [fieldOfMember?, Option.map_bind]
    rfl
  have genTime : fieldOfMember? depth ("genTime", .ofWord r.genTime)
      = some (.genTime r.genTime) := by
    rw [fieldOfMember?, reread_ofWord, Option.bind_some]
    show genTimeOf? (.ofWord r.genTime) = _
    rw [genTimeOf?, word?_ofWord, Option.map_some]
  have id : fieldOfMember? depth ("ID", .ofWord r.id) = some (.id r.id) := by
    rw [fieldOfMember?, reread_ofWord, Option.bind_some]
    show idOf? (.ofWord r.id) = _
    rw [idOf?, word?_ofWord, Option.map_some]
  have seed (n : UInt64) : fieldOfMember? depth ("seed", .ofWord n)
      = some (.seed (some n)) := by
    rw [fieldOfMember?, reread_ofWord, Option.bind_some]
    exact seedOf?_ofWord n
  -- of the members only the parameters may be read differently or not at all
  rw [members]
  cases hseed : r.seed with
  | none =>
    simp only [List.cons_append, List.nil_append, List.mapM_cons, List.mapM_nil, imageName,
      taskData, genTime, id]
    cases ((Value.object r.taskData).reread depth).bind Value.object? with
    | none => rfl
    | some taskData => simp [fieldsWith, hseed]
  | some n =>
    simp only [List.cons_append, List.nil_append, List.mapM_cons, List.mapM_nil, imageName,
      taskData, genTime, id, seed]
    cases ((Value.object r.taskData).reread depth).bind Value.object? with
    | none => rfl
    | some taskData => simp [fieldsWith, hseed]

theorem ofFields?_fieldsWith (r : Record) (taskData : Members) :
    ofFields? (r.fieldsWith taskData) = some { r with taskData } := by
  obtain ⟨imageName, oldData, genTime, id, seed⟩ := r
  cases seed <;> rfl

theorem fst_mem_keys {r : Record} {m : String × Value} (h : m ∈ r.members) : m.1 ∈ keys := by
  rw [members, List.mem_append] at h
  rcases h with h | h
  · simp only [List.mem_cons, List.not_mem_nil, or_false] at h
    rcases h with rfl | rfl | rfl | rfl <;> simp [keys]
  · cases hseed : r.seed with
    | none => simp [hseed] at h
    | some n =>
      simp only [hseed, List.mem_singleton] at h
      subst h
      simp [keys]

/-- A written record is read as what it is read back as, whatever follows. -/
theorem read_spaced {s : Spacing} (hs : s.IsBlank) (level : Nat) (r : Record) (rest : Bytes) :
    read listedDepth (r.toValue.spaced s level ++ rest) = r.reread.map fun r => (r, rest) := by
  have fields : Json.fields (named listedDepth) (inOrder listedDepth)
      (r.toValue.spaced s level ++ rest)
        = (r.members.mapM (fieldOfMember? listedDepth)).map fun fs => (fs, rest) := by
    have listed := listing_spacedMembers hs level (named listedDepth)
      (fieldOfMember? listedDepth) rest ("imageName", .string r.imageName) r.members.tail
      fun m hm rest hrest => by
        rw [named_of_mem_keys (fst_mem_keys (r := r) hm)]
        exact fieldOf_spaced hs (level + 1) listedDepth (fieldOfKey? m.1) m.2 hrest
    rw [show ("imageName", Value.string r.imageName) :: r.members.tail = r.members from rfl]
      at listed
    rw [← listed, toValue_eq_members]
    simp only [members, List.cons_append, List.nil_append, Value.spaced, Json.fields,
      List.append_assoc]
  rw [read, fields, mapM_fieldOfMember?, reread]
  cases ((Value.object r.taskData).reread listedDepth) with
  | none => rfl
  | some v =>
    cases hv : v.object? with
    | none => simp [hv]
    | some taskData => simp [hv, ofFields?_fieldsWith]

/-! ## Lists of records -/

theorem listing_records {s : Spacing} (hs : s.IsBlank) (level : Nat) (r : Record)
    (records : List Record) (rest : Bytes) :
    listing 93 (read listedDepth)
        (commaSeparated (Value.spacedItems s (level + 1) ((r :: records).map toValue))
          ++ (s.line level ++ 93 :: rest))
      = ((r :: records).mapM reread).map fun rs => (rs, rest) := by
  rw [spacedItems_eq_map, List.map_map]
  exact listing_commaSeparated (.inl rfl) (hs.line (level + 1)) (hs.line level) rest r records
    (fun r _ => startsItem_spaced s (level + 1) r.toValue)
    fun r _ rest _ => read_spaced hs (level + 1) r rest

theorem readList_spaced {s : Spacing} (hs : s.IsBlank) (records : List Record) :
    readList ((listValue records).spaced s 0) = (records.mapM reread).map fun rs => (rs, []) := by
  cases records with
  | nil =>
    rw [listValue, List.map_nil, Value.spaced, readList, listing_close 93 rfl]
    rfl
  | cons r records =>
    have listed := listing_records hs 0 r records []
    rw [listValue]
    simp only [List.map_cons, Value.spaced, readList, List.append_assoc] at listed ⊢
    exact listed

theorem spaced_listValue_eq_cons (s : Spacing) (records : List Record) :
    ∃ rest, (listValue records).spaced s 0 = 91 :: rest := by
  cases records with
  | nil => exact ⟨_, rfl⟩
  | cons r records => exact ⟨_, rfl⟩

theorem whole?_of_eq_map {α : Type} {reader : Reader α} {bs : Bytes} {o : Option α}
    (hstart : StartsItem bs) (h : reader bs = o.map fun x => (x, [])) :
    reader.whole? bs = o := by
  have front : skipBlanks bs = bs := by
    have same := skipBlanks_startsItem hstart []
    rwa [List.append_nil] at same
  rw [Reader.whole?, front, h]
  cases o <;> rfl

theorem of_whole? {α : Type} {reader : Reader α} {bs : Bytes} {x : α}
    (h : reader.whole? bs = some x) : ∃ bs rest, reader bs = some (x, rest) := by
  rw [Reader.whole?] at h
  cases hread : reader (skipBlanks bs) with
  | none =>
    rw [hread] at h
    exact absurd h (by simp)
  | some read =>
    obtain ⟨y, rest⟩ := read
    rw [hread] at h
    simp only at h
    split at h
    · obtain rfl := Option.some.inj h
      exact ⟨skipBlanks bs, rest, hread⟩
    · exact absurd h (by simp)

/-- The list of records in a response is read record by record. -/
theorem listOfJson?_compactList (records : List Record) :
    listOfJson? (compactList records) = records.mapM reread := by
  rw [listOfJson?, compactList, compact_eq_spaced (listValue records) 0]
  exact whole?_of_eq_map (startsItem_spaced .none 0 (listValue records))
    (readList_spaced isBlank_none records)

/-- A stored list of records is read record by record. -/
theorem ofDocument?_document (records : List Record) :
    ofDocument? (document records) = records.mapM reread := by
  obtain ⟨rest, text⟩ := spaced_listValue_eq_cons .tabs records
  have list := readList_spaced isBlank_tabs records
  rw [ofDocument?, document, Value.indented, indentedAt_eq_spaced]
  refine whole?_of_eq_map (startsItem_spaced .tabs 0 (listValue records)) ?_
  rw [← list, readListOrNull, text]
  rfl

/-! ## When a record is read back as itself -/

/-- The number of a record survives. -/
theorem id_of_reread {r s : Record} (h : r.reread = some s) : s.id = r.id := by
  obtain ⟨v, -, h⟩ := Option.bind_eq_some_iff.mp h
  obtain ⟨taskData, -, rfl⟩ := Option.map_eq_some_iff.mp h
  rfl

/-- The numbers of the records in a list survive. -/
theorem map_id_of_mapM_reread {rs ss : List Record} (h : rs.mapM reread = some ss) :
    ss.map Record.id = rs.map Record.id := by
  rw [mapM_eq_some_iff] at h
  induction h with
  | nil => rfl
  | cons hs _ ih => rw [List.map_cons, List.map_cons, ih, id_of_reread hs]

/-- The record but for its parameters. -/
def withoutParameters (r : Record) : Record := { r with taskData := [] }

theorem id_eq_of_withoutParameters {r s : Record}
    (h : r.withoutParameters = s.withoutParameters) : r.id = s.id := by
  have same : r.withoutParameters.id = s.withoutParameters.id := by rw [h]
  exact same

/-- Only the parameters of a record are read back differently. -/
theorem withoutParameters_of_reread {r s : Record} (h : r.reread = some s) :
    s.withoutParameters = r.withoutParameters := by
  obtain ⟨v, -, h⟩ := Option.bind_eq_some_iff.mp h
  obtain ⟨taskData, -, rfl⟩ := Option.map_eq_some_iff.mp h
  rfl

/-- Each record that is read back was in the list. -/
theorem mem_of_mapM_reread {rs ss : List Record} (h : rs.mapM reread = some ss) :
    ∀ s ∈ ss, ∃ r ∈ rs, r.reread = some s := by
  rw [mapM_eq_some_iff] at h
  induction h with
  | nil => exact fun s hs => absurd hs List.not_mem_nil
  | @cons r s rs ss hs _ ih =>
    refine List.forall_mem_cons.mpr ⟨⟨r, List.mem_cons_self, hs⟩, fun other hother => ?_⟩
    obtain ⟨found, listed, same⟩ := ih other hother
    exact ⟨found, List.mem_cons_of_mem r listed, same⟩

/-- A record whose parameters are in order, with numbers that are read back as themselves, is read
back as itself if they are not nested too deep, and otherwise not at all. -/
theorem reread_eq_some_iff {r : Record} (hsorted : (Value.object r.taskData).IsSorted)
    (hnumbers : ∀ n ∈ (Value.object r.taskData).numbers, n.reread = some n) :
    r.reread = some r ↔ (Value.object r.taskData).nesting ≤ listedDepth := by
  constructor
  · intro h
    obtain ⟨v, hv, -⟩ := Option.bind_eq_some_iff.mp h
    exact nesting_le_of_reread hv
  · intro h
    rw [reread, reread_eq_some hsorted h hnumbers]
    rfl

/-- A record that is nested too deep is not read back. -/
theorem reread_eq_none {r : Record} (h : listedDepth < (Value.object r.taskData).nesting) :
    r.reread = none := by
  cases hr : r.reread with
  | none => rfl
  | some s =>
    obtain ⟨v, hv, -⟩ := Option.bind_eq_some_iff.mp hr
    exact absurd (nesting_le_of_reread hv) (Nat.not_le_of_lt h)

/-! ## What records are read at all -/

/-- If a field is that of the parameters, these are in order and not nested deeper than allowed. -/
def Field.IsShallow (depth : Nat) : Field → Prop
  | .taskData members => (Value.object members).IsSorted ∧ (Value.object members).nesting ≤ depth
  | _ => True

theorem eq_object_of_field {f : Value → Option Field}
    (hf : f ∈ [imageNameOf?, taskDataOf?, genTimeOf?, idOf?, seedOf?]) {v : Value}
    {members : Members} (h : f v = some (.taskData members)) : v = .object members := by
  simp only [List.mem_cons, List.not_mem_nil, or_false] at hf
  rcases hf with rfl | rfl | rfl | rfl | rfl
  · simp [imageNameOf?] at h
  · cases v <;> simp_all [taskDataOf?, Value.object?]
  · simp [genTimeOf?] at h
  · simp [idOf?] at h
  · cases v <;> simp [seedOf?] at h

theorem isShallow_of_fieldOf {depth : Nat} {f : Value → Option Field}
    (hf : f ∈ [imageNameOf?, taskDataOf?, genTimeOf?, idOf?, seedOf?]) (bs : Bytes) (x : Field)
    (rest : Bytes) (h : fieldOf depth f bs = some (x, rest)) : x.IsShallow depth := by
  rw [fieldOf] at h
  obtain ⟨⟨v, behind⟩, hv, h⟩ := Option.bind_eq_some_iff.mp h
  obtain ⟨field, hfield, same⟩ := Option.bind_eq_some_iff.mp h
  obtain ⟨rfl, -⟩ := Prod.mk.inj (Option.some.inj same)
  cases field with
  | taskData members =>
    obtain rfl := eq_object_of_field hf hfield
    exact isSorted_and_nesting_le_of_value depth bs _ behind hv
  | _ => trivial

theorem isShallow_of_named {depth : Nat} (key : String) (bs : Bytes) (x : Field) (rest : Bytes)
    (h : named depth key bs = some (x, rest)) : x.IsShallow depth := by
  rw [named] at h
  split at h
  · exact isShallow_of_fieldOf (by simp) bs x rest h
  split at h
  · exact isShallow_of_fieldOf (by simp) bs x rest h
  split at h
  · exact isShallow_of_fieldOf (by simp) bs x rest h
  split at h
  · exact isShallow_of_fieldOf (by simp) bs x rest h
  split at h
  · exact isShallow_of_fieldOf (by simp) bs x rest h
  · obtain ⟨skipped, -, same⟩ := Option.map_eq_some_iff.mp h
    obtain ⟨rfl, -⟩ := Prod.mk.inj same
    trivial

/-- The one value in a list is in it. -/
theorem mem_of_atMostOne? {α : Type} {xs : List α} {x : α} (h : atMostOne? xs = some (some x)) :
    x ∈ xs := by
  match xs, h with
  | [y], h =>
    obtain rfl : y = x := by simpa [atMostOne?] using h
    exact List.mem_cons_self

/-- The parameters of a record that is read are in order and not nested deeper than allowed. -/
theorem isSorted_and_nesting_le_of_read {depth : Nat} (bs : Bytes) (r : Record) (rest : Bytes)
    (h : read depth bs = some (r, rest)) :
    (Value.object r.taskData).IsSorted ∧
      (Value.object r.taskData).nesting ≤ max 1 depth := by
  rw [read] at h
  obtain ⟨⟨fields, behind⟩, hfields, h⟩ := Option.bind_eq_some_iff.mp h
  obtain ⟨r', made, same⟩ := Option.bind_eq_some_iff.mp h
  obtain ⟨rfl, -⟩ := Prod.mk.inj (Option.some.inj same)
  -- this holds of every field that is read, and the parameters are one of them
  have shallow : ∀ field ∈ fields, field.IsShallow depth := by
    refine forall_of_fields isShallow_of_named (fun reader hreader => ?_) hfields
    obtain ⟨f, hf, rfl⟩ := List.mem_map.mp hreader
    exact isShallow_of_fieldOf hf
  rw [ofFields?] at made
  obtain ⟨imageName, -, made⟩ := Option.bind_eq_some_iff.mp made
  obtain ⟨imageName, -, made⟩ := Option.bind_eq_some_iff.mp made
  obtain ⟨taskData, given, made⟩ := Option.bind_eq_some_iff.mp made
  obtain ⟨genTime, -, made⟩ := Option.bind_eq_some_iff.mp made
  obtain ⟨id, -, made⟩ := Option.bind_eq_some_iff.mp made
  obtain ⟨id, -, made⟩ := Option.bind_eq_some_iff.mp made
  obtain ⟨seed, -, made⟩ := Option.bind_eq_some_iff.mp made
  obtain rfl := Option.some.inj made
  cases taskData with
  | none => exact ⟨⟨List.Pairwise.nil, trivial⟩, Nat.le_max_left 1 depth⟩
  | some members =>
    obtain ⟨field, hfield, picked⟩ := List.mem_filterMap.mp (mem_of_atMostOne? given)
    cases field with
    | taskData members' =>
      obtain rfl := Option.some.inj picked
      obtain ⟨sorted, flat⟩ := shallow _ hfield
      exact ⟨sorted, Nat.le_trans flat (Nat.le_max_right 1 depth)⟩
    | _ => exact absurd picked (by simp [Field.taskData?])

/-- The records that a document lists have parameters in order, nested no deeper than allowed. -/
theorem isSorted_and_nesting_le_of_ofDocument? {doc : Bytes} {records : List Record}
    (h : ofDocument? doc = some records) :
    ∀ r ∈ records, (Value.object r.taskData).IsSorted ∧
      (Value.object r.taskData).nesting ≤ listedDepth := by
  obtain ⟨bs, rest, read⟩ := of_whole? h
  rw [readListOrNull] at read
  split at read
  · obtain ⟨rfl, -⟩ := Prod.mk.inj (Option.some.inj read)
    exact fun r hr => absurd hr List.not_mem_nil
  · rw [readList.eq_def] at read
    split at read
    · exact forall_of_listing isSorted_and_nesting_le_of_read read
    · exact absurd read (by simp)

end ImageGateway.Record
