import ImageGateway.Proofs.Json.ValidTexts
import ImageGateway.Proofs.Record.Documents

/-!
# Layouts of records

A record may be given by an object or by an array (`IsLayout`). The members of the object stand in any
order, those with the value that a record has anyway may be left out, the image may go by its other
name, and whatever else is valid may stand among them; the array has the values in their order, and may
do without a seed that is missing. Each layout is read as the record, alone or in a list
(`layouts_read_alike`), and what a record is written as is one of them (`isLayout_toValue`). Members are
read one after the other and gathered by their fields, so that only the number of members for each field
matters; two for one field are refused.
-/

set_option autoImplicit false

namespace ImageGateway.Record

open Json

/-! ## The layouts -/

/-- The field that a key is for, by the name under which it is written. -/
def fieldName? (key : String) : Option String :=
  if key = "imageURL" then some "imageName" else if key ∈ keys then some key else none

/-- The value of a field. A missing seed may be given as such. -/
def valueNamed (r : Record) (name : String) : Value :=
  if name = "imageName" then .string r.imageName
  else if name = "taskData" then .object r.taskData
  else if name = "genTime" then .ofWord r.genTime
  else if name = "ID" then .ofWord r.id
  else match r.seed with
    | some seed => .ofWord seed
    | none => .null

/-- A member has the value of its field, or any valid one if it is for none. -/
def Gives (r : Record) (key : String) (text : Bytes) : Prop :=
  match fieldName? key with
  | some name => Spells listedDepth (r.valueNamed name) text
  | none => IsText text

/-- How many keys are for a field. -/
def givenFor (name : String) (keys : List String) : Nat :=
  keys.countP fun key => fieldName? key = some name

/-- The keys are for each field once, where those of the parameters, of the time and of the seed may be
left out if there is nothing to be told. -/
structure IsComplete (r : Record) (keys : List String) : Prop where
  imageName : givenFor "imageName" keys = 1
  taskData : givenFor "taskData" keys = 1 ∨ givenFor "taskData" keys = 0 ∧ r.taskData = []
  genTime : givenFor "genTime" keys = 1 ∨ givenFor "genTime" keys = 0 ∧ r.genTime = 0
  id : givenFor "ID" keys = 1
  seed : givenFor "seed" keys = 1 ∨ givenFor "seed" keys = 0 ∧ r.seed = none

/-- The ways to write a record. -/
inductive IsLayout (r : Record) : Bytes → Prop where
  | object {bs : Bytes} (members : List MemberText) (hwritten : ∀ m ∈ members, m.IsWritten)
      (hgives : ∀ m ∈ members, r.Gives m.key m.value)
      (hcomplete : r.IsComplete (members.map MemberText.key))
      (hlists : Lists (members.map MemberText.text) bs) : IsLayout r (123 :: (bs ++ [125]))
  | array {bs : Bytes} (items : List (String × Bytes))
      (hspells : ∀ i ∈ items, Spells listedDepth (r.valueNamed i.1) i.2)
      (hnames : items.map Prod.fst = keys ∨ r.seed = none ∧ items.map Prod.fst = keys.dropLast)
      (hlists : Lists (items.map Prod.snd) bs) : IsLayout r (91 :: (bs ++ [93]))

/-- An object with two members for one field. -/
def IsAmbiguous (text : Bytes) : Prop :=
  ∃ members : List MemberText, ∃ bs, (∀ m ∈ members, m.IsWritten ∧ IsText m.value) ∧
    (∃ name, 2 ≤ givenFor name (members.map MemberText.key)) ∧
    Lists (members.map MemberText.text) bs ∧ text = 123 :: (bs ++ [125])

/-! ## The fields that are read -/

/-- A field of a record. -/
def fieldNamed (r : Record) (name : String) : Field :=
  if name = "imageName" then .imageName r.imageName
  else if name = "taskData" then .taskData r.taskData
  else if name = "genTime" then .genTime r.genTime
  else if name = "ID" then .id r.id
  else .seed r.seed

/-- What a key stands for in an object of the record. -/
def fieldAt (r : Record) (key : String) : Field := (fieldName? key).elim .unknown r.fieldNamed

theorem mem_keys_of_fieldName? {key name : String} (h : fieldName? key = some name) :
    name ∈ keys := by
  rw [fieldName?] at h
  split at h
  · obtain rfl := Option.some.inj h
    exact List.mem_cons_self
  split at h
  · rename_i listed
    obtain rfl := Option.some.inj h
    exact listed
  · exact absurd h (by simp)

theorem fieldName?_of_mem_keys {name : String} (h : name ∈ keys) : fieldName? name = some name := by
  rw [fieldName?, if_neg ?_, if_pos h]
  rintro rfl
  exact absurd h (by decide)

/-- Steps over the value of a member that is for no field. -/
def unknownField : Reader Field := fun bs => (Json.skip bs).map fun r => (.unknown, r.2)

/-- The key chooses the reader of its field, or that of unknown ones. -/
theorem named_eq (depth : Nat) (key : String) :
    named depth key = match fieldName? key with
      | some name => fieldOf depth (fieldOfKey? name)
      | none => unknownField := by
  by_cases other : key = "imageURL"
  · subst other
    rfl
  by_cases listed : key ∈ keys
  · rw [fieldName?_of_mem_keys listed]
    exact named_of_mem_keys listed depth
  · rw [fieldName?, if_neg other, if_neg listed]
    simp only [keys, List.mem_cons, List.not_mem_nil, or_false, not_or] at listed
    obtain ⟨notName, notData, notTime, notId, notSeed⟩ := listed
    funext bs
    rw [named, if_neg (not_or.mpr ⟨notName, other⟩), if_neg notData, if_neg notTime, if_neg notId,
      if_neg notSeed]
    rfl

theorem fieldOfKey?_valueNamed (r : Record) {name : String} (h : name ∈ keys) :
    fieldOfKey? name (r.valueNamed name) = some (r.fieldNamed name) := by
  simp only [keys, List.mem_cons, List.not_mem_nil, or_false] at h
  rcases h with rfl | rfl | rfl | rfl | rfl
  · rfl
  · rfl
  · show genTimeOf? (.ofWord r.genTime) = _
    rw [genTimeOf?, word?_ofWord]
    rfl
  · show idOf? (.ofWord r.id) = _
    rw [idOf?, word?_ofWord]
    rfl
  · show seedOf? (match r.seed with | some seed => .ofWord seed | none => .null)
      = some (.seed r.seed)
    cases r.seed with
    | none => rfl
    | some seed => exact seedOf?_ofWord seed

theorem takes_fieldOf {depth : Nat} {f : Value → Option Field} {text : Bytes}
    (h : TakesWhole (value depth) text) :
    TakesWhole (fieldOf depth f) text ∧
      alone (fieldOf depth f) text = (alone (value depth) text).bind f := by
  refine takesWhole_of_eq h.starts fun rest ends => ?_
  rw [fieldOf, h.whole rest ends]
  cases alone (value depth) text with
  | none => rfl
  | some v => cases read : f v <;> simp [read]

theorem takes_unknown {text : Bytes} (h : IsText text) :
    TakesWhole unknownField text ∧ alone unknownField text = some .unknown := by
  obtain ⟨takes, skipped⟩ := takes_skip_of_isText h
  refine takesWhole_of_eq takes.starts fun rest ends => ?_
  rw [unknownField, takes.whole rest ends, skipped]
  rfl

/-- The value of a member is read as the field that its key stands for. -/
theorem takes_named {r : Record} {depth : Nat} {key : String} {text : Bytes}
    (hdepth : listedDepth ≤ depth) (h : r.Gives key text) :
    TakesWhole (named depth key) text ∧ alone (named depth key) text = some (r.fieldAt key) := by
  rw [Gives] at h
  rw [named_eq, fieldAt]
  cases hname : fieldName? key with
  | none =>
    rw [hname] at h
    exact takes_unknown h
  | some name =>
    rw [hname] at h
    obtain ⟨takes, read⟩ := takes_of_spells (h.mono hdepth)
    obtain ⟨takes', read'⟩ := takes_fieldOf (f := fieldOfKey? name) takes
    refine ⟨takes', ?_⟩
    rw [read', read, Option.bind_some, fieldOfKey?_valueNamed r (mem_keys_of_fieldName? hname)]
    rfl

/-- Any valid value of a member is taken as a whole, or refused. -/
theorem takes_named_of_isText {depth : Nat} {key : String} {text : Bytes} (h : IsText text) :
    TakesWhole (named depth key) text := by
  rw [named_eq]
  cases fieldName? key with
  | none => exact (takes_unknown h).1
  | some name => exact (takes_fieldOf (takes_of_isText h depth)).1

/-! ## Gathering the fields

How often a field is given does not depend on the order of the keys, nor on those that are for none. -/

theorem givenFor_append (name : String) (given more : List String) :
    givenFor name (given ++ more) = givenFor name given + givenFor name more :=
  List.countP_append

theorem givenFor_cons (name key : String) (given : List String) :
    givenFor name (key :: given)
      = givenFor name given + if fieldName? key = some name then 1 else 0 := by
  rw [givenFor, List.countP_cons, givenFor]
  simp only [decide_eq_true_eq]

theorem givenFor_pos_iff {name : String} {given : List String} :
    0 < givenFor name given ↔ ∃ key ∈ given, fieldName? key = some name := by
  simp only [givenFor, List.countP_pos_iff, decide_eq_true_eq]

/-- What is picked out of the fields is there once for each key that is for it. -/
theorem filterMap_fieldAt {α : Type} {pick : Field → Option α} {r : Record} {name : String} {x : α}
    (hpick : ∀ other ∈ keys, pick (r.fieldNamed other) = if other = name then some x else none)
    (hunknown : pick .unknown = none) (given : List String) :
    (given.map r.fieldAt).filterMap pick = List.replicate (givenFor name given) x := by
  -- each key for the field adds one value to both sides, and any other key adds none
  induction given with
  | nil => rfl
  | cons key given ih =>
    rw [List.map_cons, List.filterMap_cons, ih, givenFor_cons, fieldAt]
    cases hname : fieldName? key with
    | none => simp [hunknown]
    | some other =>
      simp only [Option.elim_some, hpick other (mem_keys_of_fieldName? hname), Option.some.injEq]
      by_cases same : other = name <;> simp [same, List.replicate_succ]

/-- One value for a field is found, and none is made up. -/
theorem atMostOne?_replicate {α : Type} {n : Nat} {x : α} {o : α} (h : n = 1 ∨ n = 0 ∧ x = o) :
    ∃ found, atMostOne? (List.replicate n x) = some found ∧ found.getD o = x := by
  rcases h with rfl | ⟨rfl, rfl⟩
  · exact ⟨some x, rfl, rfl⟩
  · exact ⟨none, rfl, rfl⟩

/-- A record is made of the fields that a complete list of keys stands for. -/
theorem ofFields?_of_isComplete {r : Record} {given : List String} (h : r.IsComplete given) :
    ofFields? (given.map r.fieldAt) = some r := by
  -- what is looked for under a name is found as often as the name is given
  have imageName : (given.map r.fieldAt).filterMap Field.imageName?
      = List.replicate (givenFor "imageName" given) r.imageName :=
    filterMap_fieldAt (by simp [keys, fieldNamed, Field.imageName?]) rfl given
  have taskData : (given.map r.fieldAt).filterMap Field.taskData?
      = List.replicate (givenFor "taskData" given) r.taskData :=
    filterMap_fieldAt (by simp [keys, fieldNamed, Field.taskData?]) rfl given
  have genTime : (given.map r.fieldAt).filterMap Field.genTime?
      = List.replicate (givenFor "genTime" given) r.genTime :=
    filterMap_fieldAt (by simp [keys, fieldNamed, Field.genTime?]) rfl given
  have id : (given.map r.fieldAt).filterMap Field.id?
      = List.replicate (givenFor "ID" given) r.id :=
    filterMap_fieldAt (by simp [keys, fieldNamed, Field.id?]) rfl given
  have seed : (given.map r.fieldAt).filterMap Field.seed?
      = List.replicate (givenFor "seed" given) r.seed :=
    filterMap_fieldAt (by simp [keys, fieldNamed, Field.seed?]) rfl given
  obtain ⟨data, hdata, dataIs⟩ := atMostOne?_replicate h.taskData
  obtain ⟨time, htime, timeIs⟩ := atMostOne?_replicate h.genTime
  obtain ⟨found, hseed, seedIs⟩ := atMostOne?_replicate h.seed
  rw [ofFields?, imageName, taskData, genTime, id, seed, h.imageName, h.id, hdata, htime, hseed]
  simp only [List.replicate_one, atMostOne?, Option.bind_eq_bind, Option.bind_some, dataIs, timeIs,
    seedIs]

/-! ## Two members for one field -/

/-- The name of the field that was read. -/
def Field.name? : Field → Option String
  | .imageName _ => some "imageName"
  | .taskData _ => some "taskData"
  | .genTime _ => some "genTime"
  | .id _ => some "ID"
  | .seed _ => some "seed"
  | .unknown => none

theorem length_le_one_of_atMostOne? {α : Type} {xs : List α} {o : Option α}
    (h : atMostOne? xs = some o) : xs.length ≤ 1 := by
  match xs, h with
  | [], _ => exact Nat.zero_le 1
  | [_], _ => exact Nat.le_refl 1

/-- Where at most one value is picked from the fields of a name, there is at most one of them. -/
theorem countP_le_one_of_atMostOne? {α : Type} {pick : Field → Option α} {name : String}
    {fields : List Field} {o : Option α} (h : atMostOne? (fields.filterMap pick) = some o)
    (hpick : ∀ f, (pick f).isSome = decide (f.name? = some name)) :
    (fields.countP fun f => f.name? = some name) ≤ 1 := by
  have picked := length_le_one_of_atMostOne? h
  rw [List.length_filterMap_eq_countP] at picked
  rwa [List.countP_congr fun f _ => by rw [hpick f]] at picked

/-- No field is given twice where a record is made. -/
theorem countP_name?_le_one {fields : List Field} {r : Record} (h : ofFields? fields = some r) :
    ∀ name ∈ keys, (fields.countP fun f => f.name? = some name) ≤ 1 := by
  -- where a record is made, at most one value was found for each kind of field
  rw [ofFields?] at h
  obtain ⟨_, imageName, h⟩ := Option.bind_eq_some_iff.mp h
  obtain ⟨_, -, h⟩ := Option.bind_eq_some_iff.mp h
  obtain ⟨_, taskData, h⟩ := Option.bind_eq_some_iff.mp h
  obtain ⟨_, genTime, h⟩ := Option.bind_eq_some_iff.mp h
  obtain ⟨_, id, h⟩ := Option.bind_eq_some_iff.mp h
  obtain ⟨_, -, h⟩ := Option.bind_eq_some_iff.mp h
  obtain ⟨_, seed, -⟩ := Option.bind_eq_some_iff.mp h
  intro name hname
  simp only [keys, List.mem_cons, List.not_mem_nil, or_false] at hname
  rcases hname with rfl | rfl | rfl | rfl | rfl
  · exact countP_le_one_of_atMostOne? imageName fun f => by cases f <;> rfl
  · exact countP_le_one_of_atMostOne? taskData fun f => by cases f <;> rfl
  · exact countP_le_one_of_atMostOne? genTime fun f => by cases f <;> rfl
  · exact countP_le_one_of_atMostOne? id fun f => by cases f <;> rfl
  · exact countP_le_one_of_atMostOne? seed fun f => by cases f <;> rfl

theorem name?_fieldOfKey? {name : String} (hname : name ∈ keys) {v : Value} {f : Field}
    (h : fieldOfKey? name v = some f) : f.name? = some name := by
  simp only [keys, List.mem_cons, List.not_mem_nil, or_false] at hname
  rcases hname with rfl | rfl | rfl | rfl | rfl
  · obtain ⟨_, -, rfl⟩ := Option.map_eq_some_iff.mp h
    rfl
  · obtain ⟨_, -, rfl⟩ := Option.map_eq_some_iff.mp h
    rfl
  · obtain ⟨_, -, rfl⟩ := Option.map_eq_some_iff.mp h
    rfl
  · obtain ⟨_, -, rfl⟩ := Option.map_eq_some_iff.mp h
    rfl
  · -- the seed is the one field that may also be given as missing
    change seedOf? v = some f at h
    rw [seedOf?.eq_def] at h
    split at h
    · obtain rfl := Option.some.inj h
      rfl
    · obtain ⟨_, -, rfl⟩ := Option.map_eq_some_iff.mp h
      rfl

/-- What is read of a member is the field that its key is for. -/
theorem name?_of_named {depth : Nat} {key : String} {bs : Bytes} {f : Field}
    (h : alone (named depth key) bs = some f) : f.name? = fieldName? key := by
  obtain ⟨⟨_, rest⟩, read, rfl⟩ := Option.map_eq_some_iff.mp h
  rw [named_eq] at read
  cases hname : fieldName? key with
  | none =>
    rw [hname] at read
    obtain ⟨_, -, same⟩ := Option.map_eq_some_iff.mp read
    obtain ⟨rfl, -⟩ := Prod.mk.inj same
    rfl
  | some name =>
    rw [hname] at read
    obtain ⟨⟨v, behind⟩, -, read⟩ := Option.bind_eq_some_iff.mp read
    obtain ⟨field, hfield, same⟩ := Option.bind_eq_some_iff.mp read
    obtain ⟨rfl, -⟩ := Prod.mk.inj (Option.some.inj same)
    exact name?_fieldOfKey? (mem_keys_of_fieldName? hname) hfield

/-- As many fields of a name are read as there are keys for it. -/
theorem countP_name?_of_mapM {depth : Nat} {name : String} {members : List MemberText}
    {fields : List Field}
    (h : (members.mapM fun m => alone (named depth m.key) m.value) = some fields) :
    (fields.countP fun f => f.name? = some name) = givenFor name (members.map MemberText.key) := by
  rw [mapM_eq_some_iff] at h
  induction h with
  | nil => rfl
  | cons one _ ih =>
    rw [List.countP_cons, ih, List.map_cons, givenFor_cons, name?_of_named one]
    simp only [decide_eq_true_eq]

/-! ## Reading a layout -/

/-- A record is read from a text whose fields are. -/
theorem takes_read {depth : Nat} {text : Bytes} {o : Option (List Field)}
    (hstart : StartsItem text)
    (h : ∀ rest, Json.fields (named depth) (inOrder depth) (text ++ rest)
      = o.map fun fields => (fields, rest)) :
    TakesWhole (read depth) text ∧ alone (read depth) text = o.bind ofFields? := by
  refine takesWhole_of_eq hstart fun rest _ => ?_
  rw [read, h]
  cases o with
  | none => rfl
  | some fields => cases made : ofFields? fields <;> simp [made]

/-- The members of an object are read one by one, each by the reader that its key chooses. -/
theorem takes_read_object {depth : Nat} {members : List MemberText} {bs : Bytes}
    (hwritten : ∀ m ∈ members, m.IsWritten)
    (hvalue : ∀ m ∈ members, TakesWhole (named depth m.key) m.value)
    (hlists : Lists (members.map MemberText.text) bs) :
    TakesWhole (read depth) (123 :: (bs ++ [125])) ∧
      alone (read depth) (123 :: (bs ++ [125]))
        = (members.mapM fun m => alone (named depth m.key) m.value).bind ofFields? := by
  refine takes_read (startsItem_curly _) fun rest => ?_
  have one := fun m hm => takes_member (hwritten m hm) (hvalue m hm)
  have items : ∀ t ∈ members.map MemberText.text, TakesWhole (member (named depth)) t := by
    intro t ht
    obtain ⟨m, hm, rfl⟩ := List.mem_map.mp ht
    exact (one m hm).1
  rw [bracketed_append, Json.fields, listing_lists (.inr rfl) hlists items,
    mapM_map_eq fun m hm => (one m hm).2]

/-- The items of an array are the fields in their order. -/
theorem takes_read_array {r : Record} {depth : Nat} (hdepth : listedDepth ≤ depth)
    {items : List (String × Bytes)} {bs : Bytes}
    (hspells : ∀ i ∈ items, Spells listedDepth (r.valueNamed i.1) i.2) (hsome : items ≠ [])
    {missing : List String} (hnames : items.map Prod.fst ++ missing = keys)
    (hlists : Lists (items.map Prod.snd) bs) :
    TakesWhole (read depth) (91 :: (bs ++ [93])) ∧
      alone (read depth) (91 :: (bs ++ [93]))
        = ofFields? ((items.map Prod.fst).map r.fieldAt) := by
  refine takes_read (o := some _) (startsItem_square _) fun rest => ?_
  have one : ∀ i ∈ items, TakesWhole (fieldOf depth (fieldOfKey? i.1)) i.2 ∧
      alone (fieldOf depth (fieldOfKey? i.1)) i.2 = some (r.fieldAt i.1) := by
    intro i hi
    have listed : i.1 ∈ keys := by
      rw [← hnames]
      exact List.mem_append_left _ (List.mem_map_of_mem hi)
    obtain ⟨takes, found⟩ := takes_of_spells ((hspells i hi).mono hdepth)
    obtain ⟨takes', found'⟩ := takes_fieldOf (f := fieldOfKey? i.1) takes
    refine ⟨takes', ?_⟩
    rw [found', found, Option.bind_some, fieldOfKey?_valueNamed r listed, fieldAt,
      fieldName?_of_mem_keys listed]
    rfl
  -- the readers of the items come first, and those of missing items are never run
  have readers : inOrder depth = items.map (fun i => fieldOf depth (fieldOfKey? i.1))
      ++ missing.map fun name => fieldOf depth (fieldOfKey? name) := by
    have named : inOrder depth = keys.map fun name => fieldOf depth (fieldOfKey? name) := rfl
    rw [named, ← hnames, List.map_append, List.map_map]
    rfl
  rw [bracketed_append, Json.fields, readers, row_lists one hsome hlists, List.map_map]
  rfl

/-- The values in their order are complete, also without that of a seed that is missing. -/
theorem isComplete_inOrder {r : Record} {given missing : List String}
    (hgiven : given ++ missing = keys) (hmissing : missing = [] ∨ missing = ["seed"] ∧ r.seed = none) :
    r.IsComplete given := by
  rcases hmissing with rfl | ⟨rfl, unset⟩
  · obtain rfl : given = keys := by rwa [List.append_nil] at hgiven
    exact ⟨by decide, .inl (by decide), .inl (by decide), by decide, .inl (by decide)⟩
  · obtain rfl : given = keys.dropLast := List.append_cancel_right hgiven
    exact ⟨by decide, .inl (by decide), .inl (by decide), by decide, .inr ⟨by decide, unset⟩⟩

/-- A record is read from each of its layouts, whatever follows. -/
theorem takes_read_of_isLayout {r : Record} {depth : Nat} (hdepth : listedDepth ≤ depth)
    {text : Bytes} (h : r.IsLayout text) :
    TakesWhole (read depth) text ∧ alone (read depth) text = some r := by
  cases h with
  | object members hwritten hgives hcomplete hlists =>
    have one := fun m hm => takes_named hdepth (hgives m hm)
    obtain ⟨takes, made⟩ := takes_read_object hwritten (fun m hm => (one m hm).1) hlists
    -- what was read depends on the keys alone
    have fields : members.map (fun m => r.fieldAt m.key)
        = (members.map MemberText.key).map r.fieldAt := by
      rw [List.map_map]
      rfl
    rw [mapM_eq_some_map fun m hm => (one m hm).2, fields, Option.bind_some,
      ofFields?_of_isComplete hcomplete] at made
    exact ⟨takes, made⟩
  | array items hspells hnames hlists =>
    -- the names of the items are those of the fields in their order, as far as they go
    obtain ⟨missing, hgiven, hmissing⟩ : ∃ missing, items.map Prod.fst ++ missing = keys ∧
        (missing = [] ∨ missing = ["seed"] ∧ r.seed = none) := by
      rcases hnames with all | ⟨unset, most⟩
      · exact ⟨[], by rw [all, List.append_nil], .inl rfl⟩
      · exact ⟨["seed"], by rw [most]; rfl, .inr ⟨rfl, unset⟩⟩
    have complete := isComplete_inOrder hgiven hmissing
    have hsome : items ≠ [] := by
      rintro rfl
      exact absurd complete.imageName (by decide)
    obtain ⟨takes, made⟩ := takes_read_array hdepth hspells hsome hgiven hlists
    rw [ofFields?_of_isComplete complete] at made
    exact ⟨takes, made⟩

theorem isText_of_gives {r : Record} {key : String} {text : Bytes} (h : r.Gives key text) :
    IsText text := by
  rw [Gives] at h
  cases hname : fieldName? key with
  | none =>
    rw [hname] at h
    exact h
  | some name =>
    rw [hname] at h
    exact h.isText

/-- Wherever another member is added for a field that is given, an object becomes ambiguous. -/
theorem isAmbiguous_of_added {r : Record} {bs : Bytes} {name : String}
    (front : List MemberText) (added : MemberText) (back : List MemberText)
    (hmembers : ∀ m ∈ front ++ back, m.IsWritten ∧ r.Gives m.key m.value)
    (hgiven : 0 < givenFor name ((front ++ back).map MemberText.key)) (hwritten : added.IsWritten)
    (hadded : IsText added.value) (hname : fieldName? added.key = some name)
    (hlists : Lists ((front ++ added :: back).map MemberText.text) bs) :
    IsAmbiguous (123 :: (bs ++ [125])) := by
  -- the members that were there are valid, and one of them is for the same field
  refine ⟨front ++ added :: back, bs, fun m hm => ?_, ⟨name, ?_⟩, hlists, rfl⟩
  · rcases List.mem_append.mp hm with hm | hm
    · obtain ⟨written, gives⟩ := hmembers m (List.mem_append_left _ hm)
      exact ⟨written, isText_of_gives gives⟩
    rcases List.mem_cons.mp hm with rfl | hm
    · exact ⟨hwritten, hadded⟩
    · obtain ⟨written, gives⟩ := hmembers m (List.mem_append_right _ hm)
      exact ⟨written, isText_of_gives gives⟩
  · rw [List.map_append, givenFor_append] at hgiven
    rw [List.map_append, List.map_cons, givenFor_append, givenFor_cons, if_pos hname]
    omega

/-- Two members for one field are refused, whatever follows. -/
theorem takes_read_of_isAmbiguous {text : Bytes} (h : IsAmbiguous text) (depth : Nat) :
    TakesWhole (read depth) text ∧ alone (read depth) text = none := by
  obtain ⟨members, bs, hmembers, ⟨name, twice⟩, hlists, rfl⟩ := h
  obtain ⟨takes, made⟩ := takes_read_object (fun m hm => (hmembers m hm).1)
    (fun m hm => takes_named_of_isText (hmembers m hm).2) hlists
  refine ⟨takes, ?_⟩
  rw [made]
  cases hfields : members.mapM fun m => alone (named depth m.key) m.value with
  | none => rfl
  | some fields =>
    rw [Option.bind_some]
    cases hr : ofFields? fields with
    | none => rfl
    | some r =>
      -- a key is for the field, so that it is one of the fields of which there is at most one
      have given : 0 < givenFor name (members.map MemberText.key) := by omega
      obtain ⟨key, -, hname⟩ := givenFor_pos_iff.mp given
      have once := countP_name?_le_one hr name (mem_keys_of_fieldName? hname)
      rw [countP_name?_of_mapM hfields] at once
      omega

/-! ## Printed layouts -/

theorem gives_printed {s : Spacing} (hs : s.IsBlank) {r : Record} {ms : List (String × Value)}
    {level : Nat} (hprints : ∀ m ∈ ms, Spells listedDepth m.2 (m.2.spaced s level))
    (hvalues : ∀ m ∈ ms, ∀ name, fieldName? m.1 = some name → m.2 = r.valueNamed name) :
    ∀ m ∈ ms.map (spacedMember s level), m.IsWritten ∧ r.Gives m.key m.value := by
  refine List.forall_mem_map.mpr fun m hm => ⟨isWritten_spacedMember hs level m, ?_⟩
  show r.Gives m.1 (m.2.spaced s level)
  rw [Gives]
  cases hname : fieldName? m.1 with
  | none => exact (hprints m hm).isText
  | some name =>
    have printed := hprints m hm
    rwa [hvalues m hm name hname] at printed ⊢

/-- Members with the values of a record, whatever blanks they are printed with, are one of its
layouts. -/
theorem isLayout_printed {s : Spacing} (hs : s.IsBlank) {r : Record} {ms : List (String × Value)}
    (level : Nat) (hprints : ∀ m ∈ ms, Spells listedDepth m.2 (m.2.spaced s (level + 1)))
    (hvalues : ∀ m ∈ ms, ∀ name, fieldName? m.1 = some name → m.2 = r.valueNamed name)
    (hcomplete : r.IsComplete (ms.map Prod.fst)) :
    r.IsLayout ((Value.object ms).spaced s level) := by
  have hsome : ms ≠ [] := by
    rintro rfl
    exact absurd hcomplete.imageName (by decide)
  obtain ⟨bs, hlists, same⟩ := lists_spacedMembers hs level hsome
  have members := gives_printed hs hprints hvalues
  have keys : (ms.map (spacedMember s (level + 1))).map MemberText.key = ms.map Prod.fst := by
    rw [List.map_map]
    rfl
  rw [same]
  exact .object _ (fun m hm => (members m hm).1) (fun m hm => (members m hm).2) (by rwa [keys])
    hlists

theorem spells_ofWord (s : Spacing) (n : UInt64) (depth level : Nat) :
    Spells depth (.ofWord n) ((Value.ofWord n).spaced s level) := by
  obtain ⟨x, hx, same⟩ := Option.map_eq_some_iff.mp (reread_ofWord n 0)
  obtain rfl := Value.number.inj same
  exact spells_numberText hx depth

/-- The values of a record are printed if its parameters are in order, not nested too deep, and with
numbers that are read back as themselves. -/
theorem spells_valueNamed {s : Spacing} (hs : s.IsBlank) {r : Record}
    (hsorted : (Value.object r.taskData).IsSorted)
    (hnested : (Value.object r.taskData).nesting ≤ listedDepth)
    (hnumbers : ∀ n ∈ (Value.object r.taskData).numbers, n.reread = some n) (name : String)
    (level : Nat) : Spells listedDepth (r.valueNamed name) ((r.valueNamed name).spaced s level) := by
  rw [valueNamed]
  split
  · exact .string _ (spellsString_stringText _)
  split
  · exact spells_spaced hs hsorted hnested hnumbers level
  split
  · exact spells_ofWord s r.genTime _ level
  split
  · exact spells_ofWord s r.id _ level
  cases r.seed with
  | none => exact .null _
  | some seed => exact spells_ofWord s seed _ level

/-- What a record is written as is one of its layouts. -/
theorem isLayout_toValue {s : Spacing} (hs : s.IsBlank) {r : Record}
    (hsorted : (Value.object r.taskData).IsSorted)
    (hnested : (Value.object r.taskData).nesting ≤ listedDepth)
    (hnumbers : ∀ n ∈ (Value.object r.taskData).numbers, n.reread = some n) (level : Nat) :
    r.IsLayout (r.toValue.spaced s level) := by
  -- every member has the value of the field that its key stands for
  have values : ∀ m ∈ r.members, m.2 = r.valueNamed m.1 := by
    intro m hm
    rw [members] at hm
    cases hseed : r.seed with
    | none =>
      simp only [hseed, List.append_nil, List.mem_cons, List.not_mem_nil, or_false] at hm
      rcases hm with rfl | rfl | rfl | rfl <;> rfl
    | some seed =>
      simp only [hseed, List.cons_append, List.nil_append, List.mem_cons, List.not_mem_nil,
        or_false] at hm
      rcases hm with rfl | rfl | rfl | rfl | rfl <;> simp [valueNamed, hseed]
  rw [toValue_eq_members]
  refine isLayout_printed hs level (fun m hm => ?_) (fun m hm name hname => ?_) ?_
  · rw [values m hm]
    exact spells_valueNamed hs hsorted hnested hnumbers m.1 (level + 1)
  · rw [fieldName?_of_mem_keys (fst_mem_keys hm)] at hname
    obtain rfl := Option.some.inj hname
    exact values m hm
  · cases hseed : r.seed with
    | none => exact isComplete_inOrder (by simp [members, hseed, keys]) (.inr ⟨rfl, hseed⟩)
    | some seed => exact isComplete_inOrder (by simp [members, hseed, keys]) (.inl rfl)

/-! ## Documents -/

/-- A list is read record by record. -/
theorem takes_readListOrNull {texts : List Bytes} {bs : Bytes} (hlists : Lists texts bs)
    (hrows : ∀ t ∈ texts, TakesWhole (read listedDepth) t) :
    TakesWhole readListOrNull (91 :: (bs ++ [93])) ∧
      alone readListOrNull (91 :: (bs ++ [93])) = texts.mapM (alone (read listedDepth)) := by
  refine takesWhole_of_eq (startsItem_square _) fun rest _ => ?_
  have listed := listing_lists (.inl rfl) hlists hrows rest
  rw [← listed, bracketed_append]
  rfl

/-- **A record is read alike from each of its layouts**, alone and in a list, and nothing is read where two
members are for one field. -/
theorem layouts_read_alike :
    (∀ (r : Record) (text doc : Bytes), r.IsLayout text → Padded text doc →
      ofJson? doc = some r) ∧
    (∀ (rows : List (Record × Bytes)) (bs doc : Bytes), (∀ row ∈ rows, row.1.IsLayout row.2) →
      Lists (rows.map Prod.snd) bs → Padded (91 :: (bs ++ [93])) doc →
      ofDocument? doc = some (rows.map Prod.fst)) ∧
    (∀ text doc : Bytes, IsAmbiguous text → Padded text doc → ofJson? doc = none) ∧
    (∀ (texts : List Bytes) (bs doc : Bytes),
      (∀ text ∈ texts, IsAmbiguous text ∨ ∃ r, IsLayout r text) →
      (∃ text ∈ texts, IsAmbiguous text) → Lists texts bs → Padded (91 :: (bs ++ [93])) doc →
      ofDocument? doc = none) := by
  have shallow : listedDepth ≤ maxDepth - 1 := by decide
  refine ⟨?_, ?_, ?_, ?_⟩
  · intro r text doc hlayout hdoc
    obtain ⟨takes, made⟩ := takes_read_of_isLayout shallow hlayout
    rw [ofJson?, takes.whole?_eq hdoc]
    exact made
  · intro rows bs doc hlayouts hlists hdoc
    have one := fun row hrow => takes_read_of_isLayout (Nat.le_refl _) (hlayouts row hrow)
    obtain ⟨takes, made⟩ := takes_readListOrNull hlists fun t ht => by
      obtain ⟨row, hrow, rfl⟩ := List.mem_map.mp ht
      exact (one row hrow).1
    rw [ofDocument?, takes.whole?_eq hdoc, made]
    exact mapM_alone fun row hrow => (one row hrow).2
  · intro text doc hambiguous hdoc
    obtain ⟨takes, made⟩ := takes_read_of_isAmbiguous hambiguous (maxDepth - 1)
    rw [ofJson?, takes.whole?_eq hdoc]
    exact made
  · intro texts bs doc htexts hsome hlists hdoc
    obtain ⟨text, ht, hambiguous⟩ := hsome
    obtain ⟨takes, made⟩ := takes_readListOrNull hlists fun t ht => by
      rcases htexts t ht with hambiguous | ⟨r, hlayout⟩
      · exact (takes_read_of_isAmbiguous hambiguous listedDepth).1
      · exact (takes_read_of_isLayout (Nat.le_refl _) hlayout).1
    rw [ofDocument?, takes.whole?_eq hdoc, made]
    exact mapM_eq_none ht (takes_read_of_isAmbiguous hambiguous listedDepth).2

/-- A record without a seed, made in no time. -/
def seedless : Record where
  imageName := "00007.png?12345"
  taskData := [("prompt", .string "cat")]
  genTime := 0
  id := 7
  seed := none

/-- Members for it in another order, with one that no record has. -/
def foreignMembers : List (String × Value) :=
  [("ID", .ofWord 7), ("note", .array [.null, .object []]), ("imageURL", .string "00007.png?12345"),
    ("taskData", .object [("prompt", .string "cat")])]

/-- Its values in their order. -/
def seedlessRow : Bytes :=
  91 :: (commaSeparated (keys.dropLast.map fun name => (seedless.valueNamed name).spaced .none 1)
    ++ [93])

/-- Both texts are read as the record, also one after the other in a list, and the first one is refused
with a second name for the image. -/
theorem layouts_read_alike_seedless :
    seedless.IsLayout ((Value.object foreignMembers).spaced .none 0) ∧
      seedless.IsLayout seedlessRow ∧
      IsAmbiguous ((Value.object (("imageName", .null) :: foreignMembers)).spaced .none 0) ∧
      ofJson? ((Value.object foreignMembers).spaced .none 0) = some seedless ∧
      ofDocument? (91 :: ((Value.object foreignMembers).spaced .none 0 ++ 44 :: seedlessRow
        ++ [93])) = some [seedless, seedless] ∧
      ofJson? ((Value.object (("imageName", .null) :: foreignMembers)).spaced .none 0) = none ∧
      ofDocument? (91 :: ((Value.object (("imageName", .null) :: foreignMembers)).spaced .none 0
        ++ 44 :: seedlessRow ++ [93])) = none := by
  obtain ⟨alone, listed, ambiguous, ambiguousListed⟩ := layouts_read_alike
  have sorted : (Value.object seedless.taskData).IsSorted :=
    ⟨List.pairwise_singleton _ _, trivial, trivial⟩
  have numbers : ∀ n ∈ (Value.object seedless.taskData).numbers, n.reread = some n :=
    fun n hn => absurd hn List.not_mem_nil
  have values := fun name => spells_valueNamed isBlank_none sorted (by decide) numbers name 1
  have note : Spells listedDepth (.array [.null, .object []])
      (Value.spaced .none 1 (.array [.null, .object []])) :=
    spells_spaced (v := .array [.null, .object []]) isBlank_none
      ⟨trivial, ⟨.nil, trivial⟩, trivial⟩ (by decide) (fun n hn => absurd hn List.not_mem_nil) 1
  have prints : ∀ m ∈ foreignMembers, Spells listedDepth m.2 (m.2.spaced .none 1) := by
    simp only [foreignMembers, List.forall_mem_cons]
    exact ⟨values "ID", note, values "imageName", values "taskData",
      fun m hm => absurd hm List.not_mem_nil⟩
  -- every member but the note is for a field, and has the value of the record for it
  have stand : ∀ m ∈ foreignMembers, ∀ name, fieldName? m.1 = some name →
      m.2 = seedless.valueNamed name := by
    simp only [foreignMembers, List.forall_mem_cons]
    refine ⟨?_, ?_, ?_, ?_, fun m hm => absurd hm List.not_mem_nil⟩
    · rintro name ⟨⟩
      rfl
    · rintro name ⟨⟩
    · rintro name ⟨⟩
      rfl
    · rintro name ⟨⟩
      rfl
  have object : seedless.IsLayout ((Value.object foreignMembers).spaced .none 0) :=
    isLayout_printed isBlank_none 0 prints stand
      ⟨by decide, .inl (by decide), .inr ⟨by decide, rfl⟩, by decide, .inr ⟨by decide, rfl⟩⟩
  have row : seedless.IsLayout seedlessRow := by
    have lists : Lists (keys.dropLast.map fun name => (seedless.valueNamed name).spaced .none 1)
        (commaSeparated (keys.dropLast.map fun name =>
          [] ++ (seedless.valueNamed name).spaced .none 1) ++ []) :=
      lists_commaSeparated isBlanks_nil isBlanks_nil "imageName" ["taskData", "genTime", "ID"]
    rw [List.append_nil] at lists
    exact .array (keys.dropLast.map fun name => (name, (seedless.valueNamed name).spaced .none 1))
      (List.forall_mem_map.mpr fun name _ => values name) (.inr ⟨rfl, rfl⟩) lists
  have twice : IsAmbiguous
      ((Value.object (("imageName", .null) :: foreignMembers)).spaced .none 0) := by
    obtain ⟨bs, lists, same⟩ := lists_spacedMembers isBlank_none 0
      (List.cons_ne_nil ("imageName", Value.null) foreignMembers)
    rw [same]
    exact isAmbiguous_of_added [] (spacedMember .none 1 ("imageName", .null))
      (foreignMembers.map (spacedMember .none 1)) (gives_printed isBlank_none prints stand)
      (by decide) (isWritten_spacedMember isBlank_none 1 _) .null rfl lists
  have padded : ∀ text, Padded text text := fun text =>
    ⟨[], [], isBlanks_nil, isBlanks_nil, (List.append_nil text).symm⟩
  have two : ∀ text text', Lists [text, text'] (text ++ 44 :: text') := fun text text' =>
    .comma (padded text) (.last (padded text'))
  refine ⟨object, row, twice, alone _ _ _ object (padded _), ?_, ambiguous _ _ twice (padded _), ?_⟩
  · exact listed [(seedless, _), (seedless, seedlessRow)] _ _
      (List.forall_mem_cons.mpr ⟨object, List.forall_mem_singleton.mpr row⟩) (two _ _) (padded _)
  · exact ambiguousListed _ _ _
      (List.forall_mem_cons.mpr ⟨.inl twice, List.forall_mem_singleton.mpr (.inr ⟨_, row⟩)⟩)
      ⟨_, List.mem_cons_self, twice⟩ (two _ _) (padded _)

end ImageGateway.Record
