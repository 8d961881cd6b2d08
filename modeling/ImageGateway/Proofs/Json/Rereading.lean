import ImageGateway.Proofs.Json.Listings
import ImageGateway.Proofs.Json.Strings

/-!
# Documents read back

The reader makes the same of a written value whatever blanks are between its parts and whatever
follows it (`value_spaced`): the value with each of its numbers as it is read back, or nothing when
it is nested too deep. That is `Value.reread`.
-/

set_option autoImplicit false

namespace ImageGateway.Json

/-! ## What a value is read back as -/

mutual

/-- What a value is read back as, if arrays and objects may be nested `depth` deep. -/
def Value.reread : Nat → Value → Option Value
  | _, .null => some .null
  | _, .bool b => some (.bool b)
  | _, .number n => n.reread.map .number
  | _, .string s => some (.string s)
  | 0, .array _ => none
  | depth + 1, .array items => (Value.rereadItems depth items).map .array
  | 0, .object _ => none
  | depth + 1, .object members =>
    (Value.rereadMembers depth members).map fun members => .object (Members.ofList members)

/-- What the items of an array are read back as. -/
def Value.rereadItems : Nat → List Value → Option (List Value)
  | _, [] => some []
  | depth, item :: rest => do
    let item ← item.reread depth
    let rest ← Value.rereadItems depth rest
    some (item :: rest)

/-- What the members of an object are read back as, in the order in which they are written. -/
def Value.rereadMembers : Nat → List (String × Value) → Option (List (String × Value))
  | _, [] => some []
  | depth, (key, value) :: rest => do
    let value ← value.reread depth
    let rest ← Value.rereadMembers depth rest
    some ((key, value) :: rest)

end

/-- What one member is read back as. -/
def rereadMember (depth : Nat) (m : String × Value) : Option (String × Value) :=
  (m.2.reread depth).map fun v => (m.1, v)

theorem rereadItems_eq_mapM (depth : Nat) (items : List Value) :
    Value.rereadItems depth items = items.mapM (Value.reread depth) := by
  induction items with
  | nil => rfl
  | cons item rest ih =>
    rw [Value.rereadItems, List.mapM_cons, ih]
    rfl

theorem rereadMembers_eq_mapM (depth : Nat) (members : List (String × Value)) :
    Value.rereadMembers depth members = members.mapM (rereadMember depth) := by
  induction members with
  | nil => rfl
  | cons m rest ih =>
    obtain ⟨key, value⟩ := m
    rw [Value.rereadMembers, List.mapM_cons, ih, rereadMember]
    cases value.reread depth <;> rfl

/-! ## One value -/

/-- A number begins with a digit or a sign. -/
theorem NumberText.Spells.eq_cons {text : NumberText} {bs : Bytes} (h : text.Spells bs) :
    ∃ b rest, bs = b :: rest ∧ startsNumber b = true := by
  obtain ⟨written, exponent, -, rfl⟩ := h
  cases text.negative with
  | true => exact ⟨45, _, rfl, rfl⟩
  | false =>
    obtain ⟨b, run, whole⟩ := List.exists_cons_of_ne_nil written.whole.1
    have digit := written.whole.2 b (whole ▸ List.mem_cons_self)
    refine ⟨b, run ++ (fractionBytes text.fraction ++ exponent), by simp [whole], ?_⟩
    rw [startsNumber, digit, Bool.or_true]

theorem numberText_eq_cons (n : Number) :
    ∃ b rest, numberText n = b :: rest ∧ startsNumber b = true := by
  obtain ⟨text, written, same⟩ := numberText_eq_bytes n
  rw [same]
  exact (spells_bytes written).eq_cons

theorem startsNumber_facts {b : UInt8} (h : startsNumber b = true) :
    isBlank b = false ∧ b ≠ 93 ∧ b ≠ 125 ∧ b ≠ 110 ∧ b ≠ 116 ∧ b ≠ 102 ∧ b ≠ 34 := by
  refine ⟨?_, ?_, ?_, ?_, ?_, ?_, ?_⟩
  · cases blank : isBlank b with
    | false => rfl
    | true =>
      simp only [isBlank, Bool.or_eq_true, beq_iff_eq] at blank
      rcases blank with ((rfl | rfl) | rfl) | rfl <;> exact absurd h (by decide)
  all_goals
    rintro rfl
    exact absurd h (by decide)

theorem NumberText.Spells.startsItem {text : NumberText} {bs : Bytes} (h : text.Spells bs) :
    StartsItem bs := by
  obtain ⟨b, rest, rfl, starts⟩ := h.eq_cons
  obtain ⟨blank, notSquare, notCurly, -⟩ := startsNumber_facts starts
  exact startsItem_cons rest blank notSquare notCurly

/-- A value begins with a letter of a word, a quote, a number or an opening bracket. -/
theorem startsItem_spaced (s : Spacing) (level : Nat) (v : Value) :
    StartsItem (v.spaced s level) := by
  cases v with
  | null => exact startsItem_letter (.inl rfl) _
  | bool b =>
    cases b with
    | true => exact startsItem_letter (.inr (.inl rfl)) _
    | false => exact startsItem_letter (.inr (.inr rfl)) _
  | number n =>
    obtain ⟨text, written, same⟩ := numberText_eq_bytes n
    rw [Value.spaced, same]
    exact (spells_bytes written).startsItem
  | string t => exact startsItem_quote _
  | array items => cases items <;> exact startsItem_square _
  | object members => cases members <;> exact startsItem_curly _

theorem value_array (depth : Nat) (bs : Bytes) :
    value (depth + 1) (91 :: bs) = (listing 93 (value depth) bs).map fun r => (.array r.1, r.2) := by
  rw [value]
  rfl

/-- Reads one member of an object. -/
def memberValue (depth : Nat) (key : String) : Reader (String × Value) := fun bs =>
  (value depth bs).map fun r => ((key, r.1), r.2)

theorem value_object (depth : Nat) (bs : Bytes) :
    value (depth + 1) (123 :: bs) = (listing 125 (member (memberValue depth)) bs).map
      fun r => (.object (Members.ofList r.1), r.2) := by
  rw [value]
  rfl

theorem value_string (depth : Nat) (bs : Bytes) :
    value depth (34 :: bs) = (string? (34 :: bs)).map fun r => (.string r.1, r.2) := by
  rw [value.eq_def]
  rfl

theorem value_number (depth : Nat) {b : UInt8} (h : startsNumber b = true) (bs : Bytes) :
    value depth (b :: bs) = (number? (b :: bs)).map fun r => (.number r.1, r.2) := by
  obtain ⟨-, -, -, notNull, notTrue, notFalse, notQuote⟩ := startsNumber_facts h
  rw [value.eq_def]
  simp only [notNull, notTrue, notFalse, notQuote, h, ↓reduceIte]

/-! ## Members -/

/-- A member of an object: a key, a colon with blanks around it, and the text of a value. -/
def IsMember (key : Bytes → Prop) (value text : Bytes) : Prop :=
  ∃ keyText before after, key keyText ∧ IsBlanks before ∧ IsBlanks after ∧
    text = keyText ++ (before ++ 58 :: (after ++ value))

/-- A member as it is written: its key, the text of its value, and the whole text. -/
structure MemberText where
  key : String
  value : Bytes
  text : Bytes

def MemberText.IsWritten (m : MemberText) : Prop := IsMember (SpellsString m.key) m.value m.text

/-- A member is read by the reader that its key chooses. -/
theorem member_of_isWritten {α : Type} {m : MemberText} (h : m.IsWritten)
    (hstart : StartsItem m.value) (named : String → Reader α) (rest : Bytes) :
    member named (m.text ++ rest) = named m.key (m.value ++ rest) := by
  obtain ⟨keyText, before, after, spells, hbefore, hafter, same⟩ := h
  have key := string?_of_spells spells (before ++ 58 :: (after ++ (m.value ++ rest)))
  have colon : skipBlanks (before ++ 58 :: (after ++ (m.value ++ rest)))
      = 58 :: (after ++ (m.value ++ rest)) := skipBlanks_append_cons hbefore rfl _
  have behind := skipBlanks_append_startsItem hafter hstart rest
  simp only [same, List.append_assoc, List.cons_append, member, key, colon, behind,
    Option.bind_eq_bind, Option.bind_some]

theorem MemberText.IsWritten.startsItem {m : MemberText} (h : m.IsWritten) : StartsItem m.text := by
  obtain ⟨_, before, after, ⟨body, -, rfl⟩, -, -, same⟩ := h
  rw [same]
  exact startsItem_quote _

/-- A member as it is written with some blanks. -/
def spacedMember (s : Spacing) (level : Nat) (m : String × Value) : MemberText :=
  ⟨m.1, m.2.spaced s level, memberText s level m⟩

theorem isWritten_spacedMember {s : Spacing} (hs : s.IsBlank) (level : Nat) (m : String × Value) :
    (spacedMember s level m).IsWritten :=
  ⟨stringText m.1, [], s.colon, spellsString_stringText m.1, isBlanks_nil, hs.colon, rfl⟩

theorem member_memberText {α : Type} {s : Spacing} (hs : s.IsBlank) (level : Nat)
    (named : String → Reader α) (m : String × Value) (rest : Bytes) :
    member named (memberText s level m ++ rest) = named m.1 (m.2.spaced s level ++ rest) :=
  member_of_isWritten (isWritten_spacedMember hs level m) (startsItem_spaced s level m.2) named rest

/-! ## Items and members -/

/-- The items of an array are read one by one. -/
theorem listing_spacedItems {α : Type} {s : Spacing} (hs : s.IsBlank) (level : Nat)
    (item : Reader α) (read : Value → Option α) (rest : Bytes) (x : Value) (xs : List Value)
    (hitem : ∀ v ∈ x :: xs, ∀ rest, EndsNumber rest →
      item (v.spaced s (level + 1) ++ rest) = (read v).map fun z => (z, rest)) :
    listing 93 item (commaSeparated (Value.spacedItems s (level + 1) (x :: xs))
        ++ (s.line level ++ 93 :: rest))
      = ((x :: xs).mapM read).map fun zs => (zs, rest) := by
  rw [spacedItems_eq_map]
  exact listing_commaSeparated (.inl rfl) (hs.line (level + 1)) (hs.line level) rest x xs
    (fun v _ => startsItem_spaced s (level + 1) v) hitem

/-- The members of an object are read one by one, each by the reader that its key chooses. -/
theorem listing_spacedMembers {α : Type} {s : Spacing} (hs : s.IsBlank) (level : Nat)
    (named : String → Reader α) (read : String × Value → Option α) (rest : Bytes)
    (x : String × Value) (xs : List (String × Value))
    (hmember : ∀ m ∈ x :: xs, ∀ rest, EndsNumber rest →
      named m.1 (m.2.spaced s (level + 1) ++ rest) = (read m).map fun z => (z, rest)) :
    listing 125 (member named) (commaSeparated (Value.spacedMembers s (level + 1) (x :: xs))
        ++ (s.line level ++ 125 :: rest))
      = ((x :: xs).mapM read).map fun zs => (zs, rest) := by
  rw [spacedMembers_eq_map]
  refine listing_commaSeparated (.inr rfl) (hs.line (level + 1)) (hs.line level) rest x xs
    (fun m _ => (isWritten_spacedMember hs (level + 1) m).startsItem) fun m hm rest hrest => ?_
  rw [member_memberText hs, hmember m hm rest hrest]

section

variable {s : Spacing} (hs : s.IsBlank) {level depth : Nat}

include hs

/-- An array is read back if its items are, with one less of the depth left. -/
theorem value_spacedArray {items : List Value}
    (ih : ∀ v ∈ items, ∀ rest, EndsNumber rest →
      value depth (v.spaced s (level + 1) ++ rest) = (v.reread depth).map fun w => (w, rest))
    (rest : Bytes) :
    value (depth + 1) ((Value.array items).spaced s level ++ rest)
      = ((Value.array items).reread (depth + 1)).map fun w => (w, rest) := by
  rw [Value.reread, rereadItems_eq_mapM]
  cases items with
  | nil =>
    rw [Value.spaced, List.cons_append, value_array, List.cons_append, List.nil_append,
      listing_close 93 rfl]
    rfl
  | cons x xs =>
    have read := listing_spacedItems hs level (value depth) (Value.reread depth) rest x xs ih
    rw [Value.spaced, List.cons_append, value_array, List.append_assoc, List.append_assoc,
      List.cons_append, List.nil_append, read]
    cases (x :: xs).mapM (Value.reread depth) <;> rfl

/-- An object is read back if the values of its members are, with one less of the depth left. -/
theorem value_spacedObject {members : List (String × Value)}
    (ih : ∀ m ∈ members, ∀ rest, EndsNumber rest →
      value depth (m.2.spaced s (level + 1) ++ rest) = (m.2.reread depth).map fun w => (w, rest))
    (rest : Bytes) :
    value (depth + 1) ((Value.object members).spaced s level ++ rest)
      = ((Value.object members).reread (depth + 1)).map fun w => (w, rest) := by
  rw [Value.reread, rereadMembers_eq_mapM]
  cases members with
  | nil =>
    rw [Value.spaced, List.cons_append, value_object, List.cons_append, List.nil_append,
      listing_close 125 rfl]
    rfl
  | cons x xs =>
    -- a member is read as its key with what is read of its value
    have read := listing_spacedMembers hs level (memberValue depth) (rereadMember depth) rest
      x xs fun m hm rest hrest => by
        rw [memberValue, ih m hm rest hrest, rereadMember]
        cases m.2.reread depth <;> rfl
    rw [Value.spaced, List.cons_append, value_object, List.append_assoc, List.append_assoc,
      List.cons_append, List.nil_append, read]
    cases (x :: xs).mapM (rereadMember depth) <;> rfl

end

/-- A written value is read as what it is read back as, whatever blanks it is written with and
whatever follows. -/
theorem value_spaced {s : Spacing} (hs : s.IsBlank) (v : Value) :
    ∀ (level depth : Nat) (rest : Bytes), EndsNumber rest →
      value depth (v.spaced s level ++ rest) = (v.reread depth).map fun w => (w, rest) := by
  -- the induction is on the value, for any indentation and any depth that is left
  induction v using Value.induct with
  | null =>
    intro level depth rest _
    rw [value.eq_def]
    cases depth <;> rfl
  | bool b =>
    intro level depth rest _
    rw [value.eq_def]
    cases b <;> cases depth <;> rfl
  | number n =>
    intro level depth rest hrest
    obtain ⟨b, more, same, starts⟩ := numberText_eq_cons n
    have read := number?_numberText n hrest
    simp only [Value.spaced, same, List.cons_append] at read ⊢
    rw [value_number depth starts, read]
    cases depth <;> cases h : n.reread <;> simp [Value.reread, h]
  | string t =>
    intro level depth rest _
    have read := string?_stringText t rest
    rw [Value.spaced, stringText, List.cons_append] at *
    rw [value_string, read]
    cases depth <;> rfl
  | array items ih =>
    intro level depth rest _
    cases depth with
    | zero => cases items <;> rfl
    | succ depth => exact value_spacedArray hs (fun v hv => ih v hv (level + 1) depth) rest
  | object members ih =>
    intro level depth rest _
    cases depth with
    | zero => cases members <;> rfl
    | succ depth => exact value_spacedObject hs (fun m hm => ih m hm (level + 1) depth) rest

end ImageGateway.Json
