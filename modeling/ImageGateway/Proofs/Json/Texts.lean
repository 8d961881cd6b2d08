import ImageGateway.Proofs.Json.Canonical

/-!
# The texts of values

A value may be written in many ways: with blanks between its parts, with escapes in its strings, and
with the members of its objects in any order (`Spells`). It is read alike in all of them
(`takes_of_spells`). What a value is printed as is one of them, with any blanks (`spells_spaced`).
-/

set_option autoImplicit false

namespace ImageGateway.Json

/-! ## The ways to write a value -/

/-- The ways to write a value with arrays and objects nested `depth` deep at most. -/
inductive Spells : Nat → Value → Bytes → Prop where
  | null (depth : Nat) : Spells depth .null [110, 117, 108, 108]
  | true (depth : Nat) : Spells depth (.bool true) [116, 114, 117, 101]
  | false (depth : Nat) : Spells depth (.bool false) [102, 97, 108, 115, 101]
  | number (depth : Nat) {text : NumberText} {n : Number} {bs : Bytes} (h : text.Spells bs)
      (hzero : hasLeadingZero text.whole = false) (hvalue : text.value? = some n) :
      Spells depth (.number n) bs
  | string (depth : Nat) {s : String} {bs : Bytes} (h : SpellsString s bs) :
      Spells depth (.string s) bs
  | array {depth : Nat} {bs : Bytes} (items : List (Value × Bytes))
      (h : ∀ i ∈ items, Spells depth i.1 i.2) (hlists : Lists (items.map Prod.snd) bs) :
      Spells (depth + 1) (.array (items.map Prod.fst)) (91 :: (bs ++ [93]))
  | object {depth : Nat} {bs : Bytes} (members : List (Value × MemberText))
      (h : ∀ m ∈ members, Spells depth m.1 m.2.value)
      (hwritten : ∀ m ∈ members, m.2.IsWritten)
      (hlists : Lists (members.map fun m => m.2.text) bs) :
      Spells (depth + 1) (.object (Members.ofList (members.map fun m => (m.2.key, m.1))))
        (123 :: (bs ++ [125]))

/-- A value that is nested less deep is also allowed where it may be nested deeper. -/
theorem Spells.mono {depth more : Nat} {v : Value} {text : Bytes} (h : Spells depth v text)
    (hle : depth ≤ more) : Spells more v text := by
  -- only arrays and objects use up depth, and both depths by the same step
  induction h generalizing more with
  | null => exact .null more
  | true => exact .true more
  | false => exact .false more
  | number _ h hzero hvalue => exact .number more h hzero hvalue
  | string _ h => exact .string more h
  | array items _ hlists ih =>
    obtain ⟨more, rfl⟩ := Nat.exists_eq_add_of_le' hle
    exact .array items (fun i hi => ih i hi (Nat.le_add_left _ _)) hlists
  | object members _ hwritten hlists ih =>
    obtain ⟨more, rfl⟩ := Nat.exists_eq_add_of_le' hle
    exact .object members (fun m hm => ih m hm (Nat.le_add_left _ _)) hwritten hlists

/-! ## Reading a value -/

/-- A member is taken as the reader chosen by its key takes its value. -/
theorem takes_member {α : Type} {m : MemberText} (h : m.IsWritten) {named : String → Reader α}
    (hvalue : TakesWhole (named m.key) m.value) :
    TakesWhole (member named) m.text ∧ alone (member named) m.text = alone (named m.key) m.value := by
  refine takesWhole_of_eq h.startsItem fun rest ends => ?_
  rw [member_of_isWritten h hvalue.starts]
  exact hvalue.whole rest ends

/-- What is read of texts that are each read as something. -/
theorem mapM_alone {α β : Type} {item : Reader α} {text : β → Bytes} {f : β → α} {xs : List β}
    (h : ∀ x ∈ xs, alone item (text x) = some (f x)) :
    (xs.map text).mapM (alone item) = some (xs.map f) := by
  rw [mapM_map_eq h]
  exact mapM_eq_some_map fun _ _ => rfl

/-- An array is read if its items are. -/
theorem takes_array {depth : Nat} {texts : List Bytes} {bs : Bytes} (hlists : Lists texts bs)
    (hitems : ∀ t ∈ texts, TakesWhole (value depth) t) :
    TakesWhole (value (depth + 1)) (91 :: (bs ++ [93])) ∧
      alone (value (depth + 1)) (91 :: (bs ++ [93]))
        = (texts.mapM (alone (value depth))).map .array := by
  refine takesWhole_of_eq (startsItem_square _) fun rest _ => ?_
  rw [bracketed_append, value_array, listing_lists (.inl rfl) hlists hitems]
  cases texts.mapM (alone (value depth)) <;> rfl

/-- An object is read if its members are. -/
theorem takes_object {depth : Nat} {texts : List Bytes} {bs : Bytes} (hlists : Lists texts bs)
    (hmembers : ∀ t ∈ texts, TakesWhole (member (memberValue depth)) t) :
    TakesWhole (value (depth + 1)) (123 :: (bs ++ [125])) ∧
      alone (value (depth + 1)) (123 :: (bs ++ [125]))
        = (texts.mapM (alone (member (memberValue depth)))).map
          fun members => .object (Members.ofList members) := by
  refine takesWhole_of_eq (startsItem_curly _) fun rest _ => ?_
  rw [bracketed_append, value_object, listing_lists (.inr rfl) hlists hmembers]
  cases texts.mapM (alone (member (memberValue depth))) <;> rfl

theorem takes_memberValue {depth : Nat} (key : String) {text : Bytes}
    (h : TakesWhole (value depth) text) :
    TakesWhole (memberValue depth key) text ∧
      alone (memberValue depth key) text = (alone (value depth) text).map fun v => (key, v) := by
  refine takesWhole_of_eq h.starts fun rest ends => ?_
  rw [memberValue, h.whole rest ends]
  cases alone (value depth) text <;> rfl

/-- A number is read as its value, if it has one. -/
theorem takes_number {text : NumberText} {bs : Bytes} (h : text.Spells bs)
    (hzero : hasLeadingZero text.whole = false) (depth : Nat) :
    TakesWhole (value depth) bs ∧ alone (value depth) bs = text.value?.map .number := by
  refine takesWhole_of_eq h.startsItem fun rest ends => ?_
  have read := numberText?_of_spells h ends
  obtain ⟨b, more, rfl, starts⟩ := h.eq_cons
  rw [hzero] at read
  rw [List.cons_append] at read ⊢
  rw [value_number depth starts, number?, read]
  cases value : text.value? <;> simp [value]

/-- A value is read, however it is written. -/
theorem takes_of_spells {depth : Nat} {v : Value} {text : Bytes} (h : Spells depth v text) :
    TakesWhole (value depth) text ∧ alone (value depth) text = some v := by
  -- the induction is on how the text was put together, with the reader's case at each step
  induction h with
  | null depth =>
    refine takesWhole_of_eq (startsItem_letter (.inl rfl) _) fun rest _ => ?_
    rw [value.eq_def]
    rfl
  | true depth =>
    refine takesWhole_of_eq (startsItem_letter (.inr (.inl rfl)) _) fun rest _ => ?_
    rw [value.eq_def]
    rfl
  | false depth =>
    refine takesWhole_of_eq (startsItem_letter (.inr (.inr rfl)) _) fun rest _ => ?_
    rw [value.eq_def]
    rfl
  | number depth h hzero hvalue =>
    obtain ⟨takes, read⟩ := takes_number h hzero depth
    rw [hvalue] at read
    exact ⟨takes, read⟩
  | string depth h =>
    have read := string?_of_spells h
    obtain ⟨body, -, rfl⟩ := h
    refine takesWhole_of_eq (startsItem_quote _) fun rest _ => ?_
    have read := read rest
    rw [List.cons_append] at read ⊢
    rw [value_string, read]
    rfl
  | array items _ hlists ih =>
    obtain ⟨takes, read⟩ := takes_array hlists fun t ht => by
      obtain ⟨i, hi, rfl⟩ := List.mem_map.mp ht
      exact (ih i hi).1
    rw [mapM_alone fun i hi => (ih i hi).2] at read
    exact ⟨takes, read⟩
  | object members _ hwritten hlists ih =>
    -- a member is read as its key with what is read of its value
    have one := fun m hm =>
      takes_member (hwritten m hm) (takes_memberValue m.2.key (ih m hm).1).1
    obtain ⟨takes, read⟩ := takes_object hlists fun t ht => by
      obtain ⟨m, hm, rfl⟩ := List.mem_map.mp ht
      exact (one m hm).1
    rw [mapM_alone (f := fun m => (m.2.key, m.1)) fun m hm => by
      rw [(one m hm).2, (takes_memberValue m.2.key (ih m hm).1).2, (ih m hm).2]
      rfl] at read
    exact ⟨takes, read⟩

/-! ## Every value has a text -/

/-- A number that is read back as itself is one way to write it. -/
theorem spells_numberText {n : Number} (h : n.reread = some n) (depth : Nat) :
    Spells depth (.number n) (numberText n) := by
  -- a number with a leading zero, or one that has no value, would not be read back
  obtain ⟨text, written, same⟩ := numberText_eq_bytes n
  have read := numberText?_bytes written endsNumber_nil
  rw [List.append_nil] at read
  rw [Number.reread, same, number?, read] at h
  cases zero : hasLeadingZero text.whole with
  | true => simp [zero] at h
  | false =>
    rw [same]
    refine .number depth (spells_bytes written) zero ?_
    cases value : text.value? with
    | none => simp [zero, value] at h
    | some m => simpa [zero, value] using h

/-- Between the brackets of an object stand its members. -/
theorem lists_spacedMembers {s : Spacing} (hs : s.IsBlank) (level : Nat)
    {ms : List (String × Value)} (hsome : ms ≠ []) :
    ∃ bs, Lists ((ms.map (spacedMember s (level + 1))).map MemberText.text) bs ∧
      (Value.object ms).spaced s level = 123 :: (bs ++ [125]) := by
  cases ms with
  | nil => exact absurd rfl hsome
  | cons m ms =>
    rw [Value.spaced, spacedMembers_eq_map, List.map_map]
    exact ⟨_, lists_commaSeparated (hs.line (level + 1)) (hs.line level) m ms, rfl⟩

section

variable {s : Spacing} (hs : s.IsBlank) {depth level : Nat}

include hs

/-- An array is written by writing its items with the blanks of the next level. -/
theorem spells_spacedArray {items : List Value}
    (one : ∀ v ∈ items, Spells depth v (v.spaced s (level + 1))) :
    Spells (depth + 1) (.array items) ((Value.array items).spaced s level) := by
  have written : ∀ {bs : Bytes}, Lists (items.map (Value.spaced s (level + 1))) bs →
      Spells (depth + 1) (.array items) (91 :: (bs ++ [93])) := by
    intro bs hlists
    have spells := Spells.array (items.map fun v => (v, v.spaced s (level + 1)))
      (List.forall_mem_map.mpr one) (by rwa [List.map_map])
    have back : (items.map fun v => (v, v.spaced s (level + 1))).map Prod.fst = items := by
      simp [Function.comp_def]
    rwa [back] at spells
  cases items with
  | nil => exact written (.none isBlanks_nil)
  | cons item items =>
    rw [Value.spaced, spacedItems_eq_map]
    exact written (lists_commaSeparated (hs.line (level + 1)) (hs.line level) item items)

/-- An object in order is written by writing its members with the blanks of the next level. -/
theorem spells_spacedObject {members : List (String × Value)} (ordered : InOrder members)
    (one : ∀ m ∈ members, Spells depth m.2 (m.2.spaced s (level + 1))) :
    Spells (depth + 1) (.object members) ((Value.object members).spaced s level) := by
  have written : ∀ {bs : Bytes}, Lists (members.map (memberText s (level + 1))) bs →
      Spells (depth + 1) (.object members) (123 :: (bs ++ [125])) := by
    intro bs hlists
    have spells := Spells.object (members.map fun m => (m.2, spacedMember s (level + 1) m))
      (List.forall_mem_map.mpr one)
      (List.forall_mem_map.mpr fun m _ => isWritten_spacedMember hs (level + 1) m)
      (by rwa [List.map_map])
    have back : (members.map fun m => (m.2, spacedMember s (level + 1) m)).map
        (fun m => (m.2.key, m.1)) = members := by
      simp [Function.comp_def, spacedMember]
    -- members that are in order are not put into another one when they are read
    rwa [back, ofList_of_inOrder ordered] at spells
  cases members with
  | nil => exact written (.none isBlanks_nil)
  | cons m members =>
    rw [Value.spaced, spacedMembers_eq_map]
    exact written (lists_commaSeparated (hs.line (level + 1)) (hs.line level) m members)

end

/-- A value in order, with numbers that are read back as themselves, is written so with any blanks if
it is not nested too deep. -/
theorem spells_spaced {s : Spacing} (hs : s.IsBlank) {v : Value} {depth : Nat}
    (hsorted : v.IsSorted) (hnested : v.nesting ≤ depth)
    (hnumbers : ∀ n ∈ v.numbers, n.reread = some n) (level : Nat) :
    Spells depth v (v.spaced s level) := by
  -- the induction is on the value; an item is one level further in, with one less of the depth left
  induction v using Value.induct generalizing depth level with
  | null => exact .null depth
  | bool b =>
    cases b with
    | true => exact .true depth
    | false => exact .false depth
  | number n => exact spells_numberText (hnumbers n (by simp [Value.numbers])) depth
  | string t => exact .string depth (spellsString_stringText t)
  | array items ih =>
    cases depth with
    | zero => simp [Value.nesting] at hnested
    | succ depth =>
      have shallow := itemsNesting_le.mp (Nat.le_of_succ_le_succ hnested)
      refine spells_spacedArray hs fun v hv => ?_
      exact ih v hv (itemsSorted_iff.mp hsorted v hv) (shallow v hv)
        (fun n hn => hnumbers n (mem_itemsNumbers.mpr ⟨v, hv, hn⟩)) (level + 1)
  | object members ih =>
    cases depth with
    | zero => simp [Value.nesting] at hnested
    | succ depth =>
      obtain ⟨ordered, sorted⟩ := hsorted
      have shallow := membersNesting_le.mp (Nat.le_of_succ_le_succ hnested)
      refine spells_spacedObject hs ordered fun m hm => ?_
      exact ih m hm (membersSorted_iff.mp sorted m hm) (shallow m hm)
        (fun n hn => hnumbers n (mem_membersNumbers.mpr ⟨m, hm, hn⟩)) (level + 1)

end ImageGateway.Json
