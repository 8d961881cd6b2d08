import ImageGateway.Proofs.Preliminaries
import ImageGateway.Toml.Document

/-!
# Documents give every key once

A table of a document, and every table inside it, has no key twice
(`hasDistinctKeys_of_parse`): whatever is added to a table is either new in it or takes the place
of what the key had, and tables on the way to an addition stay where they are
(`Members.HasDistinctKeys.alter`). So it makes no difference in which order the members of a
table are read.
-/

set_option autoImplicit false

namespace ImageGateway.Toml

/-! ## Tables -/

/-- The tables that a value consists of. Those inside an array do not count: nothing is added to
them later on. -/
def Value.tablesIn : Value → List Members
  | .table _ members => [members]
  | .tables items => items.map Prod.snd
  | _ => []

/-- No key is given twice, neither here nor in a table further inside. -/
inductive Members.HasDistinctKeys : Members → Prop where
  | intro {members : Members} (names : (members.map Prod.fst).Nodup)
      (inner : ∀ m ∈ members, ∀ table ∈ m.2.2.tablesIn, HasDistinctKeys table) :
      HasDistinctKeys members

/-- No key is given twice in the tables of a value. -/
def Value.HasDistinctKeys (v : Value) : Prop := ∀ table ∈ v.tablesIn, table.HasDistinctKeys

theorem Value.hasDistinctKeys_of_tablesIn {v : Value} (h : v.tablesIn = []) :
    v.HasDistinctKeys := by
  intro table inside
  rw [h] at inside
  exact absurd inside List.not_mem_nil

theorem Value.hasDistinctKeys_table {origin : Origin} {members : Members} :
    (Value.table origin members).HasDistinctKeys ↔ members.HasDistinctKeys :=
  List.forall_mem_singleton

theorem Value.hasDistinctKeys_tables {items : List (Place × Members)} :
    (Value.tables items).HasDistinctKeys ↔ ∀ item ∈ items, item.2.HasDistinctKeys :=
  List.forall_mem_map

theorem Value.hasDistinctKeys_tables_concat {items : List (Place × Members)}
    {last : Place × Members} :
    (Value.tables (items ++ [last])).HasDistinctKeys ↔
      (Value.tables items).HasDistinctKeys ∧ last.2.HasDistinctKeys := by
  rw [Value.hasDistinctKeys_tables, Value.hasDistinctKeys_tables, List.forall_mem_append,
    List.forall_mem_singleton]

namespace Members

variable {members : Members} {name : String} {place : Place} {v : Value}

theorem lookup_erase (name : String) (members : Members) :
    (members.erase name).lookup name = none :=
  lookup_eq_none_iff_not_mem.mpr fun found => by
    obtain ⟨m, hm, same⟩ := List.mem_map.mp found
    have differs : m.1 ≠ name := by simpa using (List.mem_filter.mp hm).2
    exact differs same

theorem names_replace (name : String) (v : Value) (members : Members) :
    (members.replace name v).map Prod.fst = members.map Prod.fst := by
  induction members with
  | nil => rfl
  | cons m rest ih =>
    rw [replace]
    split
    · rfl
    · exact congrArg (m.1 :: ·) ih

theorem mem_replace {m : String × Place × Value} (h : m ∈ members.replace name v) :
    m ∈ members ∨ m.2.2 = v := by
  induction members with
  | nil => exact .inl h
  | cons first rest ih =>
    rw [replace] at h
    split at h
    · rcases List.mem_cons.mp h with rfl | later
      · exact .inr rfl
      · exact .inl (List.mem_cons_of_mem _ later)
    · rcases List.mem_cons.mp h with rfl | later
      · exact .inl List.mem_cons_self
      · exact (ih later).imp_left (List.mem_cons_of_mem _)

namespace HasDistinctKeys

theorem names (h : members.HasDistinctKeys) : (members.map Prod.fst).Nodup := by
  cases h with
  | intro names _ => exact names

theorem inner (h : members.HasDistinctKeys) : ∀ m ∈ members, m.2.2.HasDistinctKeys := by
  cases h with
  | intro _ inner => exact inner

theorem nil : HasDistinctKeys [] := .intro List.nodup_nil fun _ inside => nomatch inside

theorem of_lookup (h : members.HasDistinctKeys) (found : members.lookup name = some (place, v)) :
    v.HasDistinctKeys :=
  h.inner _ (mem_of_lookup found)

/-- A key that is new may be added. -/
theorem append (h : members.HasDistinctKeys) (new : members.lookup name = none)
    (hv : v.HasDistinctKeys) (place : Place) :
    HasDistinctKeys (members ++ [(name, place, v)]) := by
  refine .intro ?_ fun m hm => ?_
  · rw [List.map_append]
    refine List.nodup_append.mpr ⟨h.names, List.nodup_singleton _, fun a ha b hb => ?_⟩
    obtain rfl := List.mem_singleton.mp hb
    exact fun same => lookup_eq_none_iff_not_mem.mp new (same ▸ ha)
  · rcases List.mem_append.mp hm with before | last
    · exact h.inner m before
    · rw [List.mem_singleton.mp last]
      exact hv

theorem replace (h : members.HasDistinctKeys) (hv : v.HasDistinctKeys) (name : String) :
    HasDistinctKeys (members.replace name v) := by
  refine .intro ?_ fun m hm => ?_
  · rw [names_replace]
    exact h.names
  · rcases mem_replace hm with kept | new
    · exact h.inner m kept
    · rw [new]
      exact hv

theorem erase (h : members.HasDistinctKeys) (name : String) :
    HasDistinctKeys (members.erase name) :=
  .intro (h.names.sublist (List.filter_sublist.map Prod.fst)) fun m hm =>
    h.inner m (List.mem_filter.mp hm).1

/-- A change of the table at the end of a path leaves the keys distinct, if it leaves those of that
table distinct. -/
theorem alter {walker : Origin} {change : Origin → Members → Option Members}
    (hchange : ∀ here inner out, HasDistinctKeys inner → change here inner = some out →
      HasDistinctKeys out)
    {path : List Key} {origin : Origin} {out : Members} (h : members.HasDistinctKeys)
    (run : Members.alter walker change origin path members = some out) :
    out.HasDistinctKeys := by
  -- Every step of the path changes one member. What it becomes has distinct keys by induction.
  induction path generalizing origin members out with
  | nil => exact hchange origin members out h run
  | cons key path ih =>
    rw [Members.alter] at run
    cases found : members.lookup key.name with
    | none =>
      -- The table did not exist. It is made from nothing and added under a new key.
      rw [found] at run
      obtain ⟨inner, ran, same⟩ := Option.bind_eq_some_iff.mp run
      obtain rfl := Option.some.inj same
      exact h.append found (Value.hasDistinctKeys_table.mpr (ih nil ran)) _
    | some given =>
      obtain ⟨place, v⟩ := given
      have distinct := h.of_lookup found
      rw [found] at run
      cases v with
      | table inside members =>
        simp only [Option.ite_none_right_eq_some] at run
        obtain ⟨inner, ran, same⟩ := Option.bind_eq_some_iff.mp run.2
        obtain rfl := Option.some.inj same
        exact h.replace (Value.hasDistinctKeys_table.mpr
          (ih (Value.hasDistinctKeys_table.mp distinct) ran)) _
      | tables items =>
        -- The path leads into the last table of an array, and the others stay.
        cases last : items.getLast? with
        | none => simp [last] at run
        | some item =>
          simp only [last] at run
          obtain ⟨inner, ran, same⟩ := Option.bind_eq_some_iff.mp run
          obtain rfl := Option.some.inj same
          have each := Value.hasDistinctKeys_tables.mp distinct
          have others : (Value.tables items.dropLast).HasDistinctKeys :=
            Value.hasDistinctKeys_tables.mpr fun other there =>
              each other ((List.dropLast_sublist items).subset there)
          exact h.replace (Value.hasDistinctKeys_tables_concat.mpr
            ⟨others, ih (each item (List.mem_of_getLast? last)) ran⟩) _
      | _ => exact absurd run nofun

end HasDistinctKeys

/-! ## Additions -/

variable {out : Members} {path : List Key} {key : Key}

theorem HasDistinctKeys.add (h : members.HasDistinctKeys) (hv : v.HasDistinctKeys)
    (run : add key place v members = some out) : out.HasDistinctKeys := by
  rw [Members.add] at run
  split at run
  · exact absurd run nofun
  · rename_i new
    obtain rfl := Option.some.inj run
    exact h.append (Option.not_isSome_iff_eq_none.mp new) hv place

theorem HasDistinctKeys.put {origin : Origin} (h : members.HasDistinctKeys)
    (hv : v.HasDistinctKeys) (run : put origin path key place v members = some out) :
    out.HasDistinctKeys := by
  refine h.alter (fun here inner out hinner changed => ?_) run
  split at changed
  · exact absurd changed nofun
  · exact hinner.add hv changed

theorem HasDistinctKeys.openTable (h : members.HasDistinctKeys)
    (run : openTable path key place members = some out) : out.HasDistinctKeys := by
  refine h.alter (fun here inner out hinner changed => ?_) run
  split at changed
  · rename_i new
    obtain rfl := Option.some.inj changed
    exact hinner.append new (Value.hasDistinctKeys_table.mpr nil) place
  · -- A header may claim a table that has only been passed through. It moves to the end, so its
    -- key has to be taken out first.
    rename_i kept found
    obtain rfl := Option.some.inj changed
    have distinct := Value.hasDistinctKeys_table.mp (hinner.of_lookup found)
    exact (hinner.erase key.name).append (lookup_erase key.name inner)
      (Value.hasDistinctKeys_table.mpr distinct) place
  · exact absurd changed nofun

theorem HasDistinctKeys.openNext (h : members.HasDistinctKeys)
    (run : openNext path key place members = some out) : out.HasDistinctKeys := by
  refine h.alter (fun here inner out hinner changed => ?_) run
  split at changed
  · rename_i new
    obtain rfl := Option.some.inj changed
    have empty : (Value.tables [(place, [])]).HasDistinctKeys := List.forall_mem_singleton.mpr nil
    exact hinner.append new empty place
  · rename_i items found
    obtain rfl := Option.some.inj changed
    exact hinner.replace
      (Value.hasDistinctKeys_tables_concat.mpr ⟨hinner.of_lookup found, nil⟩) key.name
  · exact absurd changed nofun

end Members

/-! ## Values -/

section

variable {v : Value} {cs rest : List Char} {place : Place}

theorem tablesIn_of_word {text : String} {w : Value} (hw : w.tablesIn = [])
    (h : word text w cs = .ok (v, rest)) : v.tablesIn = [] := by
  rw [word] at h
  split at h
  · cases h
    exact hw
  · exact absurd h nofun

theorem tablesIn_of_specialFloat {negative : Bool}
    (h : specialFloat? negative cs = some (v, rest)) : v.tablesIn = [] := by
  unfold specialFloat? at h
  split at h
  · cases h
    rfl
  · cases h
    rfl
  · exact absurd h nofun

theorem tablesIn_of_checkedInteger {n : Int} {cs : List Char}
    (h : checkedInteger place n cs = .ok (v, rest)) : v.tablesIn = [] := by
  rw [checkedInteger] at h
  split at h
  · cases h
    rfl
  · exact absurd h nofun

theorem tablesIn_of_checkedFloat {negative : Bool} {whole fraction : List Char} {power : Int}
    (h : checkedFloat place negative whole fraction power cs = .ok (v, rest)) :
    v.tablesIn = [] := by
  simp only [checkedFloat] at h
  split at h
  · cases h
    rfl
  · split at h
    · cases h
      rfl
    · exact absurd h nofun

theorem tablesIn_of_decimalNumber (h : decimalNumber place cs = .ok (v, rest)) :
    v.tablesIn = [] := by
  unfold decimalNumber at h
  simp only [] at h
  split at h
  · rename_i special
    cases h
    exact tablesIn_of_specialFloat special
  · obtain ⟨whole, -, h⟩ := bind_eq_ok.mp h
    obtain ⟨fraction, -, h⟩ := bind_eq_ok.mp h
    obtain ⟨power, -, h⟩ := bind_eq_ok.mp h
    split at h
    · exact tablesIn_of_checkedFloat h
    · exact tablesIn_of_checkedInteger h

theorem tablesIn_of_number (h : number cs = .ok (v, rest)) : v.tablesIn = [] := by
  unfold number at h
  split at h
  · split at h
    · obtain ⟨digits, -, h⟩ := bind_eq_ok.mp h
      exact tablesIn_of_checkedInteger h
    · exact tablesIn_of_decimalNumber h
  · exact tablesIn_of_decimalNumber h

theorem tablesIn_of_numeric (h : numeric cs = .ok (v, rest)) : v.tablesIn = [] := by
  unfold numeric at h
  split at h
  · rename_i dated
    obtain ⟨after, -, same⟩ := Option.map_eq_some_iff.mp dated
    rw [h] at same
    obtain ⟨_, -, last⟩ := bind_eq_ok.mp same
    cases last
    rfl
  · exact tablesIn_of_number h

section

variable {item : Reader Value} {P : Value → Prop}

/-- What a reader of values guarantees holds of the value that is assigned with it. -/
theorem value_of_assignment (hitem : ∀ cs v rest, item cs = .ok (v, rest) → P v)
    {a : Assignment} (h : assignment item cs = .ok (a, rest)) : P a.value := by
  obtain ⟨_, -, h⟩ := bind_eq_ok.mp h
  obtain ⟨_, -, h⟩ := bind_eq_ok.mp h
  obtain ⟨⟨v, _⟩, given, h⟩ := bind_eq_ok.mp h
  cases h
  exact hitem _ v _ given

/-- And it holds of all values in braces that are read with it. -/
theorem value_of_mem_braceItems (hitem : ∀ cs v rest, item cs = .ok (v, rest) → P v)
    {fuel : Nat} {comma : Option Place} {items : List Assignment}
    (h : braceItems item fuel comma cs = .ok (items, rest)) : ∀ a ∈ items, P a.value := by
  induction fuel generalizing comma cs items rest with
  | zero => exact absurd h nofun
  | succ fuel ih =>
    simp only [braceItems] at h
    split at h
    · obtain ⟨⟨a, after⟩, first, h⟩ := bind_eq_ok.mp h
      have hfirst := value_of_assignment hitem first
      split at h
      · obtain ⟨⟨more, _⟩, others, h⟩ := bind_eq_ok.mp h
        cases h
        exact List.forall_mem_cons.mpr ⟨hfirst, ih others⟩
      · obtain ⟨_, -, h⟩ := bind_eq_ok.mp h
        cases h
        exact List.forall_mem_singleton.mpr hfirst
    · split at h
      · exact absurd h nofun
      · obtain ⟨_, -, h⟩ := bind_eq_ok.mp h
        cases h
        exact nofun

end

theorem hasDistinctKeys_of_tableOf {origin : Origin} {items : List Assignment} {members : Members}
    (hitems : ∀ a ∈ items, a.value.HasDistinctKeys) (h : tableOf? origin items = some members) :
    members.HasDistinctKeys := by
  -- Items are put in one after the other, so the induction needs any start with distinct keys.
  suffices run : ∀ start : Members, start.HasDistinctKeys →
      items.foldlM (fun members a => Members.put origin a.path a.key a.place a.value members) start
        = some members → members.HasDistinctKeys from run [] .nil h
  clear h
  induction items with
  | nil =>
    intro start hstart same
    exact Option.some.inj same ▸ hstart
  | cons a items ih =>
    obtain ⟨first, others⟩ := List.forall_mem_cons.mp hitems
    intro start hstart h
    rw [List.foldlM_cons] at h
    obtain ⟨next, added, h⟩ := Option.bind_eq_some_iff.mp h
    exact ih others next (hstart.put first added) h

/-- A value that has been read gives no key twice. -/
theorem hasDistinctKeys_of_value {depth : Nat} (h : value depth cs = .ok (v, rest)) :
    v.HasDistinctKeys := by
  -- Only braces make a table, and the values between them are read with less depth left.
  induction depth using Nat.strongRecOn generalizing cs v rest with
  | ind depth ih =>
    unfold value at h
    split at h
    · exact absurd h nofun
    · split at h
      · -- a string
        obtain ⟨_, -, same⟩ := map_eq_ok.mp h
        cases same
        exact Value.hasDistinctKeys_of_tablesIn rfl
      split at h
      · exact Value.hasDistinctKeys_of_tablesIn (tablesIn_of_word rfl h)
      split at h
      · exact Value.hasDistinctKeys_of_tablesIn (tablesIn_of_word rfl h)
      split at h
      · split at h
        · rename_i special
          cases h
          exact Value.hasDistinctKeys_of_tablesIn (tablesIn_of_specialFloat special)
        · exact absurd h nofun
      split at h
      · exact Value.hasDistinctKeys_of_tablesIn (tablesIn_of_numeric h)
      split at h
      · exact absurd h nofun
      · rename_i less
        split at h
        · -- an array
          obtain ⟨_, -, same⟩ := map_eq_ok.mp h
          cases same
          exact Value.hasDistinctKeys_of_tablesIn rfl
        split at h
        · -- a table in braces
          obtain ⟨⟨items, after⟩, braced, h⟩ := bind_eq_ok.mp h
          dsimp only at h
          split at h
          · rename_i members made
            cases h
            have inside := value_of_mem_braceItems
              (fun _ _ _ given => ih less (Nat.lt_succ_self less) given) braced
            exact Value.hasDistinctKeys_table.mpr (hasDistinctKeys_of_tableOf inside made)
          · exact absurd h nofun
        · exact absurd h nofun

end

/-! ## Documents -/

section

variable {d d' : Draft} {cs rest : List Char} {place : Place}

theorem hasDistinctKeys_of_orFault {next : Option Draft}
    (hnext : ∀ e, next = some e → e.members.HasDistinctKeys)
    (h : orFault place next cs = .ok (d', rest)) : d'.members.HasDistinctKeys := by
  cases next with
  | none => exact absurd h nofun
  | some e =>
    cases h
    exact hnext _ rfl

theorem hasDistinctKeys_of_assignmentLine (hd : d.members.HasDistinctKeys)
    (h : assignmentLine d cs = .ok (d', rest)) : d'.members.HasDistinctKeys := by
  obtain ⟨⟨a, after⟩, assigned, h⟩ := bind_eq_ok.mp h
  obtain ⟨_, -, h⟩ := bind_eq_ok.mp h
  refine hasDistinctKeys_of_orFault (fun e made => ?_) h
  obtain ⟨members, changed, made⟩ := Option.bind_eq_some_iff.mp made
  obtain rfl := Option.some.inj made
  have distinct : a.value.HasDistinctKeys :=
    value_of_assignment (fun _ _ _ given => hasDistinctKeys_of_value given) assigned
  exact hd.alter (fun _ _ _ hinner put => hinner.put distinct put) changed

theorem hasDistinctKeys_of_headerLine (hd : d.members.HasDistinctKeys)
    (h : headerLine d cs = .ok (d', rest)) : d'.members.HasDistinctKeys := by
  unfold headerLine at h
  split at h
  · -- two brackets open the next table of a list
    obtain ⟨⟨⟨path, last⟩, after⟩, -, h⟩ := bind_eq_ok.mp h
    dsimp only at h
    split at h
    · obtain ⟨_, -, h⟩ := bind_eq_ok.mp h
      refine hasDistinctKeys_of_orFault (fun e made => ?_) h
      obtain ⟨members, opened, made⟩ := Option.bind_eq_some_iff.mp made
      obtain rfl := Option.some.inj made
      exact hd.openNext opened
    · exact absurd h nofun
  · -- one bracket opens a table
    split at h
    · exact absurd h nofun
    · obtain ⟨⟨⟨path, last⟩, after⟩, -, h⟩ := bind_eq_ok.mp h
      obtain ⟨_, -, h⟩ := bind_eq_ok.mp h
      obtain ⟨_, -, h⟩ := bind_eq_ok.mp h
      refine hasDistinctKeys_of_orFault (fun e made => ?_) h
      obtain ⟨members, opened, made⟩ := Option.bind_eq_some_iff.mp made
      obtain rfl := Option.some.inj made
      exact hd.openTable opened
  · exact absurd h nofun

/-- A line leaves the keys distinct. -/
theorem hasDistinctKeys_of_line (hd : d.members.HasDistinctKeys)
    (h : line d cs = .ok (d', rest)) : d'.members.HasDistinctKeys := by
  unfold line at h
  split at h
  · cases h
    exact hd
  · split at h
    · obtain ⟨_, -, same⟩ := map_eq_ok.mp h
      cases same
      exact hd
    split at h
    · exact hasDistinctKeys_of_headerLine hd h
    split at h
    · obtain ⟨_, -, same⟩ := map_eq_ok.mp h
      cases same
      exact hd
    · exact hasDistinctKeys_of_assignmentLine hd h

theorem hasDistinctKeys_of_linesFrom {fuel : Nat} (hd : d.members.HasDistinctKeys)
    (h : linesFrom fuel d cs = .ok d') : d'.members.HasDistinctKeys := by
  induction fuel generalizing d cs with
  | zero => exact absurd h nofun
  | succ fuel ih =>
    simp only [linesFrom] at h
    split at h
    · cases h
      exact hd
    · obtain ⟨⟨next, after⟩, one, h⟩ := bind_eq_ok.mp h
      exact ih (hasDistinctKeys_of_line hd one) h

/-- No key is given twice in a document, nor in any table of it. -/
theorem hasDistinctKeys_of_parse {members : Members} (h : parse cs = .ok members) :
    members.HasDistinctKeys := by
  obtain ⟨d, read, rfl⟩ := map_eq_ok.mp h
  exact hasDistinctKeys_of_linesFrom .nil read

end

end ImageGateway.Toml
