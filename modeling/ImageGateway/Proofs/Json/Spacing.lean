import ImageGateway.Json.Lexeme
import ImageGateway.Json.Printer

/-!
# Blanks between the parts of a document

Both printers write a value in one way and differ in the blanks between its parts. `Value.spaced`
writes it with blanks of any kind; without any it is the compact text (`compact_eq_spaced`), with a
line for every item the indented one (`indentedAt_eq_spaced`).
-/

set_option autoImplicit false

namespace ImageGateway.Json

/-- Induction over values, with one hypothesis for all items of an array and for all members of an
object. -/
theorem Value.induct {P : Value → Prop} (null : P .null) (bool : ∀ b, P (.bool b))
    (number : ∀ n, P (.number n)) (string : ∀ s, P (.string s))
    (array : ∀ items, (∀ v ∈ items, P v) → P (.array items))
    (object : ∀ members, (∀ m ∈ members, P m.2) → P (.object members)) (v : Value) : P v := by
  refine @Value.rec P (fun items => ∀ v ∈ items, P v) (fun members => ∀ m ∈ members, P m.2)
    (fun m => P m.2) null bool number string array object ?_ ?_ ?_ ?_ ?_ v
  · simp
  · intro head tail hhead htail v hv
    rcases List.mem_cons.mp hv with rfl | hv
    · exact hhead
    · exact htail v hv
  · simp
  · intro head tail hhead htail m hm
    rcases List.mem_cons.mp hm with rfl | hm
    · exact hhead
    · exact htail m hm
  · intro key value hvalue
    exact hvalue

/-! ## Spacing -/

/-- The texts with commas between them. -/
def commaSeparated : List Bytes → Bytes
  | [] => []
  | [text] => text
  | text :: rest => text ++ 44 :: commaSeparated rest

/-- How a document is spaced: what stands before each item and before the closing bracket at a level,
and what stands behind a colon. -/
structure Spacing where
  line : Nat → Bytes
  colon : Bytes

/-- There is nothing but blanks between the parts. -/
structure Spacing.IsBlank (s : Spacing) : Prop where
  line : ∀ level, ∀ b ∈ s.line level, isBlank b = true
  colon : ∀ b ∈ s.colon, isBlank b = true

/-- No blanks at all. -/
def Spacing.none : Spacing := ⟨fun _ => [], []⟩

/-- Every item on a line of its own, with a tab for each level. -/
def Spacing.tabs : Spacing := ⟨newLine, [32]⟩

theorem isBlank_none : Spacing.none.IsBlank := ⟨by simp [Spacing.none], by simp [Spacing.none]⟩

theorem isBlank_tabs : Spacing.tabs.IsBlank := by
  refine ⟨fun level b hb => ?_, fun b hb => ?_⟩
  · simp only [Spacing.tabs, newLine, List.mem_cons, List.mem_replicate] at hb
    rcases hb with rfl | ⟨-, rfl⟩ <;> rfl
  · simp only [Spacing.tabs, List.mem_singleton] at hb
    subst hb
    rfl

mutual

/-- The text of a value at a level of indentation. -/
def Value.spaced (s : Spacing) (level : Nat) : Value → Bytes
  | .null => wordNull
  | .bool b => if b then wordTrue else wordFalse
  | .number n => numberText n
  | .string t => stringText t
  | .array [] => [91, 93]
  | .array (item :: items) =>
    91 :: (commaSeparated (Value.spacedItems s (level + 1) (item :: items)) ++ s.line level ++ [93])
  | .object [] => [123, 125]
  | .object (member :: members) =>
    123 :: (commaSeparated (Value.spacedMembers s (level + 1) (member :: members)) ++ s.line level
      ++ [125])

/-- The texts of the items of an array. -/
def Value.spacedItems (s : Spacing) (level : Nat) : List Value → List Bytes
  | [] => []
  | item :: rest => (s.line level ++ item.spaced s level) :: Value.spacedItems s level rest

/-- The texts of the members of an object. -/
def Value.spacedMembers (s : Spacing) (level : Nat) : List (String × Value) → List Bytes
  | [] => []
  | (key, value) :: rest =>
    (s.line level ++ (stringText key ++ 58 :: (s.colon ++ value.spaced s level)))
      :: Value.spacedMembers s level rest

end

/-- The text of one member. -/
def memberText (s : Spacing) (level : Nat) (m : String × Value) : Bytes :=
  stringText m.1 ++ 58 :: (s.colon ++ m.2.spaced s level)

theorem spacedItems_eq_map (s : Spacing) (level : Nat) (items : List Value) :
    Value.spacedItems s level items = items.map fun v => s.line level ++ v.spaced s level := by
  induction items with
  | nil => rfl
  | cons item rest ih => rw [Value.spacedItems, List.map_cons, ih]

theorem spacedMembers_eq_map (s : Spacing) (level : Nat) (members : List (String × Value)) :
    Value.spacedMembers s level members
      = members.map fun m => s.line level ++ memberText s level m := by
  induction members with
  | nil => rfl
  | cons m rest ih =>
    obtain ⟨key, value⟩ := m
    rw [Value.spacedMembers, List.map_cons, ih]
    rfl

theorem compactItems_eq {items : List Value} {level : Nat}
    (h : ∀ v ∈ items, v.compact = v.spaced .none level) :
    Value.compactItems items = commaSeparated (Value.spacedItems .none level items) := by
  induction items with
  | nil => rfl
  | cons item rest ih =>
    have first := h item List.mem_cons_self
    cases rest with
    | nil => simpa [Value.compactItems, Value.spacedItems, commaSeparated, Spacing.none] using first
    | cons next rest =>
      have others := ih fun v hv => h v (List.mem_cons_of_mem item hv)
      rw [Value.compactItems, others, first]
      · simp [Value.spacedItems, commaSeparated, Spacing.none]
      · simp

theorem compactMembers_eq {members : List (String × Value)} {level : Nat}
    (h : ∀ m ∈ members, m.2.compact = m.2.spaced .none level) :
    Value.compactMembers members = commaSeparated (Value.spacedMembers .none level members) := by
  induction members with
  | nil => rfl
  | cons m rest ih =>
    obtain ⟨key, value⟩ := m
    have first := h (key, value) List.mem_cons_self
    cases rest with
    | nil =>
      simpa [Value.compactMembers, Value.spacedMembers, commaSeparated, Spacing.none] using first
    | cons next rest =>
      have others := ih fun v hv => h v (List.mem_cons_of_mem _ hv)
      rw [Value.compactMembers, others]
      · simp only at first
        simp [Value.spacedMembers, commaSeparated, Spacing.none, first]
      · simp

/-- Without blanks, a value is written compactly. -/
theorem compact_eq_spaced (v : Value) : ∀ level : Nat, v.compact = v.spaced .none level := by
  induction v using Value.induct with
  | null => intro level; rfl
  | bool b => intro level; rfl
  | number n => intro level; rfl
  | string t => intro level; rfl
  | array items ih =>
    intro level
    cases items with
    | nil => rfl
    | cons item rest =>
      rw [Value.compact, compactItems_eq fun v hv => ih v hv (level + 1)]
      simp [Value.spaced, Spacing.none]
  | object members ih =>
    intro level
    cases members with
    | nil => rfl
    | cons m rest =>
      rw [Value.compact, compactMembers_eq fun m hm => ih m hm (level + 1)]
      simp [Value.spaced, Spacing.none]

theorem indentedItems_eq {items : List Value} {level : Nat}
    (h : ∀ v ∈ items, v.indentedAt level = v.spaced .tabs level) :
    Value.indentedItems level items = commaSeparated (Value.spacedItems .tabs level items) := by
  induction items with
  | nil => rfl
  | cons item rest ih =>
    have first := h item List.mem_cons_self
    cases rest with
    | nil => simp [Value.indentedItems, Value.spacedItems, commaSeparated, Spacing.tabs, first]
    | cons next rest =>
      have others := ih fun v hv => h v (List.mem_cons_of_mem item hv)
      rw [Value.indentedItems, others, first]
      · simp [Value.spacedItems, commaSeparated, Spacing.tabs]
      · simp

theorem indentedMembers_eq {members : List (String × Value)} {level : Nat}
    (h : ∀ m ∈ members, m.2.indentedAt level = m.2.spaced .tabs level) :
    Value.indentedMembers level members
      = commaSeparated (Value.spacedMembers .tabs level members) := by
  induction members with
  | nil => rfl
  | cons m rest ih =>
    obtain ⟨key, value⟩ := m
    have first := h (key, value) List.mem_cons_self
    simp only at first
    cases rest with
    | nil =>
      simp [Value.indentedMembers, Value.spacedMembers, commaSeparated, Spacing.tabs, first]
    | cons next rest =>
      have others := ih fun v hv => h v (List.mem_cons_of_mem _ hv)
      rw [Value.indentedMembers, others]
      · simp [Value.spacedMembers, commaSeparated, Spacing.tabs, first]
      · simp

/-- With tabs, a value is written indented. -/
theorem indentedAt_eq_spaced (v : Value) :
    ∀ level : Nat, v.indentedAt level = v.spaced .tabs level := by
  induction v using Value.induct with
  | null => intro level; rfl
  | bool b => intro level; rfl
  | number n => intro level; rfl
  | string t => intro level; rfl
  | array items ih =>
    intro level
    cases items with
    | nil => rfl
    | cons item rest =>
      rw [Value.indentedAt, indentedItems_eq fun v hv => ih v hv (level + 1)]
      simp [Value.spaced, Spacing.tabs]
  | object members ih =>
    intro level
    cases members with
    | nil => rfl
    | cons m rest =>
      rw [Value.indentedAt, indentedMembers_eq fun m hm => ih m hm (level + 1)]
      simp [Value.spaced, Spacing.tabs]

end ImageGateway.Json
