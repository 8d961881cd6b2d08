import ImageGateway.Proofs.Json.Rereading
import Mathlib.Data.List.Induction

/-!
# Values that are read back as themselves

Whatever is read has its members in the order of their keys and is nested no deeper than was allowed
(`isSorted_and_nesting_le_of_value`). Such a value is read back as itself exactly when it
is not nested deeper than allowed the next time, provided that its numbers are read back as
themselves (`reread_eq_some`, `nesting_le_of_reread`).
-/

set_option autoImplicit false

namespace ImageGateway.Json

mutual

/-- How deep arrays and objects are nested, the value itself counted. -/
def Value.nesting : Value → Nat
  | .array items => Value.itemsNesting items + 1
  | .object members => Value.membersNesting members + 1
  | _ => 0

/-- How deep the deepest item is nested. -/
def Value.itemsNesting : List Value → Nat
  | [] => 0
  | item :: rest => max item.nesting (Value.itemsNesting rest)

/-- How deep the deepest member is nested. -/
def Value.membersNesting : List (String × Value) → Nat
  | [] => 0
  | (_, value) :: rest => max value.nesting (Value.membersNesting rest)

end

mutual

/-- All numbers of a value. -/
def Value.numbers : Value → List Number
  | .number n => [n]
  | .array items => Value.itemsNumbers items
  | .object members => Value.membersNumbers members
  | _ => []

/-- All numbers of the items of an array. -/
def Value.itemsNumbers : List Value → List Number
  | [] => []
  | item :: rest => item.numbers ++ Value.itemsNumbers rest

/-- All numbers of the members of an object. -/
def Value.membersNumbers : List (String × Value) → List Number
  | [] => []
  | (_, value) :: rest => value.numbers ++ Value.membersNumbers rest

end

/-- Whether the keys are in their order, each once. -/
def InOrder (members : List (String × Value)) : Prop :=
  members.Pairwise fun m n => m.1 < n.1

mutual

/-- Whether the members of every object in a value are in the order of their keys. -/
def Value.IsSorted : Value → Prop
  | .array items => Value.ItemsSorted items
  | .object members => InOrder members ∧ Value.MembersSorted members
  | _ => True

/-- Whether every item is sorted. -/
def Value.ItemsSorted : List Value → Prop
  | [] => True
  | item :: rest => item.IsSorted ∧ Value.ItemsSorted rest

/-- Whether the value of every member is sorted. -/
def Value.MembersSorted : List (String × Value) → Prop
  | [] => True
  | (_, value) :: rest => value.IsSorted ∧ Value.MembersSorted rest

end

/-! ## Parts of a value -/

theorem itemsNesting_le {items : List Value} {depth : Nat} :
    Value.itemsNesting items ≤ depth ↔ ∀ v ∈ items, v.nesting ≤ depth := by
  induction items with
  | nil => simp [Value.itemsNesting]
  | cons item rest ih => simp only [Value.itemsNesting, Nat.max_le, ih, List.forall_mem_cons]

theorem membersNesting_le {members : List (String × Value)} {depth : Nat} :
    Value.membersNesting members ≤ depth ↔ ∀ m ∈ members, m.2.nesting ≤ depth := by
  induction members with
  | nil => simp [Value.membersNesting]
  | cons m rest ih =>
    obtain ⟨key, value⟩ := m
    rw [Value.membersNesting, Nat.max_le, ih, List.forall_mem_cons]

theorem mem_itemsNumbers {items : List Value} {n : Number} :
    n ∈ Value.itemsNumbers items ↔ ∃ v ∈ items, n ∈ v.numbers := by
  induction items with
  | nil => simp [Value.itemsNumbers]
  | cons item rest ih => simp [Value.itemsNumbers, ih]

theorem mem_membersNumbers {members : List (String × Value)} {n : Number} :
    n ∈ Value.membersNumbers members ↔ ∃ m ∈ members, n ∈ m.2.numbers := by
  induction members with
  | nil => simp [Value.membersNumbers]
  | cons m rest ih =>
    obtain ⟨key, value⟩ := m
    simp only [Value.membersNumbers, List.mem_append, ih, List.mem_cons, exists_eq_or_imp]

theorem itemsSorted_iff {items : List Value} :
    Value.ItemsSorted items ↔ ∀ v ∈ items, v.IsSorted := by
  induction items with
  | nil => simp [Value.ItemsSorted]
  | cons item rest ih => simp [Value.ItemsSorted, ih]

theorem membersSorted_iff {members : List (String × Value)} :
    Value.MembersSorted members ↔ ∀ m ∈ members, m.2.IsSorted := by
  induction members with
  | nil => simp [Value.MembersSorted]
  | cons m rest ih =>
    obtain ⟨key, value⟩ := m
    rw [Value.MembersSorted, ih, List.forall_mem_cons]

/-! ## Members in order -/

theorem mem_insert {key : String} {value : Value} {members : List (String × Value)}
    {m : String × Value} (h : m ∈ Members.insert key value members) :
    m = (key, value) ∨ m ∈ members := by
  induction members with
  | nil => simpa [Members.insert] using h
  | cons n rest ih =>
    obtain ⟨k, v⟩ := n
    rw [Members.insert] at h
    split at h
    · simpa using h
    split at h
    · rcases List.mem_cons.mp h with h | h
      · exact .inl h
      · exact .inr (List.mem_cons_of_mem _ h)
    · rcases List.mem_cons.mp h with h | h
      · exact .inr (h ▸ List.mem_cons_self)
      · rcases ih h with h | h
        · exact .inl h
        · exact .inr (List.mem_cons_of_mem _ h)

theorem inOrder_insert (key : String) (value : Value) {members : List (String × Value)}
    (h : InOrder members) : InOrder (Members.insert key value members) := by
  induction members with
  | nil => simp [Members.insert, InOrder]
  | cons n rest ih =>
    obtain ⟨k, v⟩ := n
    obtain ⟨first, others⟩ := List.pairwise_cons.mp h
    rw [Members.insert]
    split
    · -- the new key goes in front of all that are there
      rename_i below
      refine List.pairwise_cons.mpr ⟨fun m hm => ?_, h⟩
      rcases List.mem_cons.mp hm with rfl | hm
      · exact below
      · exact String.lt_trans below (first m hm)
    split
    · rename_i same
      subst same
      exact List.pairwise_cons.mpr ⟨first, others⟩
    · -- the new key goes further back, where it is above the first one
      rename_i notBelow differs
      have above : k < key := by
        rcases Decidable.em (k < key) with above | notAbove
        · exact above
        · exact absurd (String.le_antisymm notAbove notBelow) differs
      refine List.pairwise_cons.mpr ⟨fun m hm => ?_, ih others⟩
      rcases mem_insert hm with rfl | hm
      · exact above
      · exact first m hm

/-- A member whose key is above all others goes to the end. -/
theorem insert_of_above {key : String} {value : Value} {members : List (String × Value)}
    (h : ∀ m ∈ members, m.1 < key) :
    Members.insert key value members = members ++ [(key, value)] := by
  induction members with
  | nil => rfl
  | cons n rest ih =>
    obtain ⟨k, v⟩ := n
    have above : k < key := h (k, v) List.mem_cons_self
    rw [Members.insert, if_neg (String.lt_asymm above), if_neg (String.ne_of_lt above).symm,
      ih fun m hm => h m (List.mem_cons_of_mem _ hm), List.cons_append]

theorem ofList_append (members : List (String × Value)) (m : String × Value) :
    Members.ofList (members ++ [m]) = Members.insert m.1 m.2 (Members.ofList members) := by
  simp [Members.ofList]

/-- Members that are in order stay as they are. -/
theorem ofList_of_inOrder {members : List (String × Value)} (h : InOrder members) :
    Members.ofList members = members := by
  induction members using List.reverseRecOn with
  | nil => rfl
  | append_singleton members m ih =>
    obtain ⟨front, -, last⟩ := List.pairwise_append.mp h
    rw [ofList_append, ih front]
    exact insert_of_above fun n hn => last n hn m List.mem_cons_self

theorem inOrder_ofList (members : List (String × Value)) : InOrder (Members.ofList members) := by
  induction members using List.reverseRecOn with
  | nil => exact List.Pairwise.nil
  | append_singleton members m ih =>
    rw [ofList_append]
    exact inOrder_insert m.1 m.2 ih

theorem mem_of_mem_ofList {members : List (String × Value)} {m : String × Value}
    (h : m ∈ Members.ofList members) : m ∈ members := by
  induction members using List.reverseRecOn with
  | nil => exact h
  | append_singleton members n ih =>
    rw [ofList_append] at h
    rcases mem_insert h with rfl | h
    · simp
    · exact List.mem_append_left _ (ih h)

/-! ## Reading back what was read -/

/-- Items that are read back as themselves one by one are so together. -/
theorem mapM_eq_some_self {α : Type} {f : α → Option α} {xs : List α}
    (h : ∀ x ∈ xs, f x = some x) : xs.mapM f = some xs :=
  mapM_eq_some_iff.mpr (List.forall₂_same.mpr h)

theorem eq_some_self_of_mapM {α : Type} {f : α → Option α} {xs : List α}
    (h : xs.mapM f = some xs) : ∀ x ∈ xs, f x = some x :=
  List.forall₂_same.mp (mapM_eq_some_iff.mp h)

/-- A sorted value that is not nested too deep is read back as itself if its numbers are. -/
theorem reread_eq_some {v : Value} {depth : Nat} (hsorted : v.IsSorted)
    (hnested : v.nesting ≤ depth) (hnumbers : ∀ n ∈ v.numbers, n.reread = some n) :
    v.reread depth = some v := by
  -- a value is read back where its nesting has room, and sorted members keep their order
  induction v using Value.induct generalizing depth with
  | null => cases depth <;> rfl
  | bool b => cases depth <;> rfl
  | number n =>
    have same := hnumbers n (by simp [Value.numbers])
    cases depth <;> simp [Value.reread, same]
  | string s => cases depth <;> rfl
  | array items ih =>
    cases depth with
    | zero => simp [Value.nesting] at hnested
    | succ depth =>
      have shallow := itemsNesting_le.mp (Nat.le_of_succ_le_succ hnested)
      have all : items.mapM (Value.reread depth) = some items :=
        mapM_eq_some_self fun v hv => ih v hv (itemsSorted_iff.mp hsorted v hv) (shallow v hv)
          fun n hn => hnumbers n (mem_itemsNumbers.mpr ⟨v, hv, hn⟩)
      rw [Value.reread, rereadItems_eq_mapM, all]
      rfl
  | object members ih =>
    cases depth with
    | zero => simp [Value.nesting] at hnested
    | succ depth =>
      obtain ⟨ordered, sorted⟩ := hsorted
      have shallow := membersNesting_le.mp (Nat.le_of_succ_le_succ hnested)
      have all : members.mapM (rereadMember depth) = some members :=
        mapM_eq_some_self fun m hm => by
          rw [rereadMember, ih m hm (membersSorted_iff.mp sorted m hm) (shallow m hm)
            fun n hn => hnumbers n (mem_membersNumbers.mpr ⟨m, hm, hn⟩)]
          rfl
      rw [Value.reread, rereadMembers_eq_mapM, all]
      simp [ofList_of_inOrder ordered]

/-- Whatever is read back is not nested too deep. -/
theorem nesting_le_of_reread {v w : Value} {depth : Nat} (h : v.reread depth = some w) :
    v.nesting ≤ depth := by
  induction v using Value.induct generalizing depth w with
  | null => exact Nat.zero_le depth
  | bool b => exact Nat.zero_le depth
  | number n => exact Nat.zero_le depth
  | string s => exact Nat.zero_le depth
  | array items ih =>
    cases depth with
    | zero => simp [Value.reread] at h
    | succ depth =>
      rw [Value.reread, rereadItems_eq_mapM] at h
      obtain ⟨read, hread, -⟩ := Option.map_eq_some_iff.mp h
      refine Nat.succ_le_succ (itemsNesting_le.mpr fun v hv => ?_)
      obtain ⟨u, hu⟩ := exists_of_mapM_eq_some hread v hv
      exact ih v hv hu
  | object members ih =>
    cases depth with
    | zero => simp [Value.reread] at h
    | succ depth =>
      rw [Value.reread, rereadMembers_eq_mapM] at h
      obtain ⟨read, hread, -⟩ := Option.map_eq_some_iff.mp h
      refine Nat.succ_le_succ (membersNesting_le.mpr fun m hm => ?_)
      obtain ⟨u, hu⟩ := exists_of_mapM_eq_some hread m hm
      obtain ⟨w, hw, -⟩ := Option.map_eq_some_iff.mp hu
      exact ih m hm hw

/-! ## What is read at all -/

section Items

variable {α : Type} {close : UInt8} {item : Reader α} {P : α → Prop}

/-- What the reader of the items ensures holds of all items. -/
theorem forall_of_itemsUntil (hitem : ∀ bs x rest, item bs = some (x, rest) → P x)
    (clock : Bytes) :
    ∀ {bs : Bytes} {xs : List α} {rest : Bytes},
      itemsUntil close item clock bs = some (xs, rest) → ∀ x ∈ xs, P x := by
  induction clock with
  | nil =>
    intro bs xs rest h
    simp [itemsUntil] at h
  | cons k clock ih =>
    intro bs xs rest h
    rw [itemsUntil] at h
    obtain ⟨⟨x, behind⟩, hx, h⟩ := Option.bind_eq_some_iff.mp h
    have first := hitem _ x behind hx
    simp only at h
    split at h
    · split at h
      · obtain ⟨⟨ys, last⟩, hys, h⟩ := Option.bind_eq_some_iff.mp h
        obtain ⟨rfl, rfl⟩ := Prod.mk.inj (Option.some.inj h)
        exact List.forall_mem_cons.mpr ⟨first, ih hys⟩
      · split at h
        · obtain ⟨rfl, rfl⟩ := Prod.mk.inj (Option.some.inj h)
          exact List.forall_mem_cons.mpr ⟨first, fun y hy => absurd hy List.not_mem_nil⟩
        · exact absurd h (by simp)
    · exact absurd h (by simp)

theorem forall_of_listing (hitem : ∀ bs x rest, item bs = some (x, rest) → P x)
    {bs : Bytes} {xs : List α} {rest : Bytes} (h : listing close item bs = some (xs, rest)) :
    ∀ x ∈ xs, P x := by
  rw [listing] at h
  split at h
  · split at h
    · obtain ⟨rfl, -⟩ := Prod.mk.inj (Option.some.inj h)
      exact fun x hx => absurd hx List.not_mem_nil
    · exact forall_of_itemsUntil hitem bs h
  · exact absurd h (by simp)

/-- What the readers of the values ensure holds of all members. -/
theorem of_member {named : String → Reader α}
    (hnamed : ∀ key bs x rest, named key bs = some (x, rest) → P x)
    (bs : Bytes) (x : α) (rest : Bytes) (h : member named bs = some (x, rest)) : P x := by
  rw [member] at h
  obtain ⟨⟨key, behind⟩, -, h⟩ := Option.bind_eq_some_iff.mp h
  simp only at h
  split at h
  · exact hnamed key _ x rest h
  · exact absurd h (by simp)

theorem forall_of_rowUntil {readers : List (Reader α)}
    (hreaders : ∀ reader ∈ readers, ∀ bs x rest, reader bs = some (x, rest) → P x)
    {bs : Bytes} {xs : List α} {rest : Bytes} (h : rowUntil readers bs = some (xs, rest)) :
    ∀ x ∈ xs, P x := by
  induction readers generalizing bs xs rest with
  | nil => exact absurd h (by simp [rowUntil])
  | cons reader readers ih =>
    rw [rowUntil] at h
    obtain ⟨⟨x, behind⟩, hx, h⟩ := Option.bind_eq_some_iff.mp h
    have first := hreaders reader List.mem_cons_self _ x behind hx
    simp only at h
    split at h
    · obtain ⟨rfl, -⟩ := Prod.mk.inj (Option.some.inj h)
      exact List.forall_mem_cons.mpr ⟨first, fun y hy => absurd hy List.not_mem_nil⟩
    · obtain ⟨⟨ys, last⟩, hys, h⟩ := Option.bind_eq_some_iff.mp h
      obtain ⟨rfl, -⟩ := Prod.mk.inj (Option.some.inj h)
      refine List.forall_mem_cons.mpr ⟨first, ih (fun reader hreader => ?_) hys⟩
      exact hreaders reader (List.mem_cons_of_mem _ hreader)
    · exact absurd h (by simp)

/-- What the readers of the fields ensure holds of all fields, by name or by position. -/
theorem forall_of_fields {named : String → Reader α} {positional : List (Reader α)}
    (hnamed : ∀ key bs x rest, named key bs = some (x, rest) → P x)
    (hpositional : ∀ reader ∈ positional, ∀ bs x rest, reader bs = some (x, rest) → P x)
    {bs : Bytes} {xs : List α} {rest : Bytes}
    (h : fields named positional bs = some (xs, rest)) : ∀ x ∈ xs, P x := by
  rw [fields.eq_def] at h
  split at h
  · exact forall_of_listing (of_member hnamed) h
  · rw [row] at h
    split at h
    · obtain ⟨rfl, -⟩ := Prod.mk.inj (Option.some.inj h)
      exact fun x hx => absurd hx List.not_mem_nil
    · exact forall_of_rowUntil hpositional h
  · exact absurd h (by simp)

end Items

/-- A value without parts: nothing is out of order or nested in it. -/
def Value.IsAtom (v : Value) : Prop := v.IsSorted ∧ v.nesting = 0

theorem isAtom_of_map {α : Type} {f : α → Value} (hf : ∀ x, (f x).IsAtom)
    {read : Option (α × Bytes)} {v : Value} {rest : Bytes}
    (h : (read.map fun r => (f r.1, r.2)) = some (v, rest)) : v.IsAtom := by
  obtain ⟨⟨x, behind⟩, -, same⟩ := Option.map_eq_some_iff.mp h
  obtain ⟨rfl, rfl⟩ := Prod.mk.inj same
  exact hf x

theorem isAtom_of_word {text : Bytes} {w : Value} (hw : w.IsAtom) {bs : Bytes} {v : Value}
    {rest : Bytes} (h : word text w bs = some (v, rest)) : v.IsAtom := by
  obtain ⟨behind, -, same⟩ := Option.map_eq_some_iff.mp h
  obtain ⟨rfl, rfl⟩ := Prod.mk.inj same
  exact hw

/-- Where there is no bracket, an atom is read. -/
theorem isAtom_of_value {depth : Nat} {b : UInt8} {bs : Bytes} {v : Value} {rest : Bytes}
    (hsquare : b ≠ 91) (hcurly : b ≠ 123) (h : value depth (b :: bs) = some (v, rest)) :
    v.IsAtom := by
  rw [value.eq_def] at h
  dsimp only at h
  -- the first byte decides what is read
  by_cases isNull : b = 110
  · rw [if_pos isNull] at h
    exact isAtom_of_word (w := .null) ⟨trivial, rfl⟩ h
  by_cases isTrue : b = 116
  · rw [if_neg isNull, if_pos isTrue] at h
    exact isAtom_of_word (w := .bool true) ⟨trivial, rfl⟩ h
  by_cases isFalse : b = 102
  · rw [if_neg isNull, if_neg isTrue, if_pos isFalse] at h
    exact isAtom_of_word (w := .bool false) ⟨trivial, rfl⟩ h
  rw [if_neg isNull, if_neg isTrue, if_neg isFalse] at h
  by_cases isString : b = 34
  · rw [if_pos isString] at h
    exact isAtom_of_map (f := .string) (fun _ => ⟨trivial, rfl⟩) h
  by_cases isNumber : startsNumber b = true
  · rw [if_neg isString, if_pos isNumber] at h
    exact isAtom_of_map (f := .number) (fun _ => ⟨trivial, rfl⟩) h
  rw [if_neg isString, if_neg isNumber] at h
  cases depth with
  | zero => exact absurd h (by simp)
  | succ below =>
    dsimp only at h
    rw [if_neg hsquare, if_neg hcurly] at h
    exact absurd h (by simp)

/-- Without depth left no bracket is read. -/
theorem value_zero_bracket {b : UInt8} (h : b = 91 ∨ b = 123) (bs : Bytes) :
    value 0 (b :: bs) = none := by
  rcases h with rfl | rfl <;> rw [value.eq_def] <;> rfl

/-- What is read is an atom, or an array or an object whose parts are read with one level less. -/
theorem value_cases {depth : Nat} {bs : Bytes} {v : Value} {rest : Bytes}
    (h : value depth bs = some (v, rest)) :
    v.IsAtom ∨
    (∃ below items behind, depth = below + 1 ∧ v = .array items ∧
      listing 93 (value below) behind = some (items, rest)) ∨
    (∃ below members behind, depth = below + 1 ∧ v = .object (Members.ofList members) ∧
      listing 125 (member (memberValue below)) behind = some (members, rest)) := by
  cases bs with
  | nil =>
    rw [value.eq_def] at h
    exact absurd h (by simp)
  | cons b bs =>
    by_cases bracket : b = 91 ∨ b = 123
    · cases depth with
      | zero => exact absurd ((value_zero_bracket bracket bs).symm.trans h) (by simp)
      | succ below =>
        rcases bracket with rfl | rfl
        · rw [value_array] at h
          obtain ⟨⟨items, behind⟩, read, same⟩ := Option.map_eq_some_iff.mp h
          obtain ⟨rfl, rfl⟩ := Prod.mk.inj same
          exact .inr (.inl ⟨below, items, bs, rfl, rfl, read⟩)
        · rw [value_object] at h
          obtain ⟨⟨members, behind⟩, read, same⟩ := Option.map_eq_some_iff.mp h
          obtain ⟨rfl, rfl⟩ := Prod.mk.inj same
          exact .inr (.inr ⟨below, members, bs, rfl, rfl, read⟩)
    · obtain ⟨notSquare, notCurly⟩ := not_or.mp bracket
      exact .inl (isAtom_of_value notSquare notCurly h)

/-- Whatever is read is sorted and not nested deeper than allowed. -/
theorem isSorted_and_nesting_le_of_value (depth : Nat) :
    ∀ (bs : Bytes) (v : Value) (rest : Bytes), value depth bs = some (v, rest) →
      v.IsSorted ∧ v.nesting ≤ depth := by
  induction depth using Nat.strongRecOn with
  | ind depth ih =>
    intro bs v rest h
    rcases value_cases h with ⟨sorted, flat⟩ | ⟨below, items, behind, rfl, rfl, read⟩ |
      ⟨below, members, behind, rfl, rfl, read⟩
    · exact ⟨sorted, flat ▸ Nat.zero_le depth⟩
    · have parts := forall_of_listing (P := fun v : Value => v.IsSorted ∧ v.nesting ≤ below)
        (ih below (Nat.lt_succ_self below)) read
      exact ⟨itemsSorted_iff.mpr fun v hv => (parts v hv).1,
        Nat.succ_le_succ (itemsNesting_le.mpr fun v hv => (parts v hv).2)⟩
    · -- the same for each member, and the members are put in order
      have named : ∀ (key : String) (bs : Bytes) (m : String × Value) (rest : Bytes),
          memberValue below key bs = some (m, rest) → m.2.IsSorted ∧ m.2.nesting ≤ below := by
        intro key bs m rest h
        obtain ⟨⟨w, behind⟩, hw, same⟩ := Option.map_eq_some_iff.mp h
        obtain ⟨rfl, -⟩ := Prod.mk.inj same
        exact ih below (Nat.lt_succ_self below) bs w behind hw
      have parts := forall_of_listing
        (P := fun m : String × Value => m.2.IsSorted ∧ m.2.nesting ≤ below)
        (of_member named) read
      exact ⟨⟨inOrder_ofList members,
        membersSorted_iff.mpr fun m hm => (parts m (mem_of_mem_ofList hm)).1⟩,
        Nat.succ_le_succ (membersNesting_le.mpr fun m hm => (parts m (mem_of_mem_ofList hm)).2)⟩

end ImageGateway.Json
