import ImageGateway.Project
import ImageGateway.Proofs.Decimal.Words
import ImageGateway.Proofs.Json.Rereading
import ImageGateway.Proofs.Json.SpelledStrings

/-!
# The names of projects

A name is allowed if it is one component of a path and no file of the global namespace can have it
(`Project.IsAllowed`). Plain names, headers, texts and JSON documents come to the same decision about
a name (`Project.accepted_alike`): a document is a project exactly if it is a string, however it is
spelled, whose characters make an allowed name. So an escape for a slash is refused like the slash.
-/

set_option autoImplicit false

namespace ImageGateway.Project

open Json (SpellsString Padded)

variable {name : String} {p : Project}

/-- A name that a project may have. -/
structure IsAllowed (name : String) : Prop where
  noSlash : '/' ∉ name.toList
  noBackslash : '\\' ∉ name.toList
  noNul : '\x00' ∉ name.toList
  notHere : name ≠ "."
  notUp : name ≠ ".."
  notSettings : name ≠ "settings.json"
  notLedger : ¬ "history.json".toList <+: name.toList
  /-- It is no number with the ending of images. -/
  notImage : ∀ digits : List Char, digits ≠ [] → (∀ c ∈ digits, '0' ≤ c ∧ c ≤ '9') →
    name ≠ String.ofList digits ++ ".png"

/-! ## The check of names -/

theorem isSeparator_iff {c : Char} : isSeparator c = true ↔ c = '/' ∨ c = '\\' ∨ c = '\x00' := by
  simp only [isSeparator, Bool.or_eq_true, beq_iff_eq, or_assoc]

theorem any_isSeparator_eq_false_iff {cs : List Char} :
    cs.any isSeparator = false ↔ '/' ∉ cs ∧ '\\' ∉ cs ∧ '\x00' ∉ cs := by
  rw [List.any_eq_false]
  simp only [isSeparator_iff, not_or]
  constructor
  · intro h
    exact ⟨fun c => (h _ c).1 rfl, fun c => (h _ c).2.1 rfl, fun c => (h _ c).2.2 rfl⟩
  · rintro ⟨slash, backslash, nul⟩ c hc
    exact ⟨fun same => slash (same ▸ hc), fun same => backslash (same ▸ hc),
      fun same => nul (same ▸ hc)⟩

theorem imageStem?_eq_some_iff {cs stem : List Char} :
    imageStem? cs = some stem ↔ cs = stem ++ ".png".toList := by
  rw [imageStem?, Option.ite_none_right_eq_some]
  constructor
  · rintro ⟨ending, same⟩
    obtain rfl := Option.some.inj same
    rw [← ending, List.take_append_drop]
  · rintro rfl
    have ending : (".png".toList).length = 4 := rfl
    rw [List.length_append, ending, Nat.add_sub_cancel, List.drop_left, List.take_left]
    exact ⟨rfl, rfl⟩

/-- Some file of the global namespace may have the name: the settings, a ledger or an image. -/
theorem collides_iff {cs : List Char} :
    collides cs = true ↔ cs = "settings.json".toList ∨ "history.json".toList <+: cs ∨
      ∃ digits, digits ≠ [] ∧ (∀ c ∈ digits, '0' ≤ c ∧ c ≤ '9') ∧ cs = digits ++ ".png".toList := by
  rw [collides, Bool.or_eq_true, Bool.or_eq_true, beq_iff_eq, List.isPrefixOf_iff_prefix, or_assoc]
  refine or_congr_right (or_congr_right ?_)
  constructor
  · intro h
    split at h
    · rename_i stem found
      obtain ⟨filled, digits⟩ := Bool.and_eq_true_iff.mp h
      refine ⟨stem, by simpa using filled, fun c hc => ?_, imageStem?_eq_some_iff.mp found⟩
      exact Decimal.isDigit_iff.mp (List.all_eq_true.mp digits c hc)
    · exact absurd h nofun
  · rintro ⟨digits, filled, ascii, same⟩
    rw [imageStem?_eq_some_iff.mpr same]
    have all : digits.all Char.isDigit = true :=
      List.all_eq_true.mpr fun c hc => Decimal.isDigit_iff.mpr (ascii c hc)
    simpa [all] using filled

theorem eq_ofList_append_iff {digits : List Char} {ending : String} :
    name = String.ofList digits ++ ending ↔ name.toList = digits ++ ending.toList := by
  rw [← String.toList_inj, String.toList_append, String.toList_ofList]

/-- No fault is found with a name exactly if it is allowed. -/
theorem nameFault?_eq_none_iff : nameFault? name = none ↔ IsAllowed name := by
  have dots : (name.toList == ['.'] || name.toList == ['.', '.']) = true ↔
      name = "." ∨ name = ".." := by
    rw [Bool.or_eq_true, beq_iff_eq, beq_iff_eq, ← String.toList_inj, ← String.toList_inj]
    rfl
  have settings : name = "settings.json" ↔ name.toList = "settings.json".toList :=
    String.toList_inj.symm
  -- the check is made in three steps, each for some of the conditions
  have check : nameFault? name = none ↔ name.toList.any isSeparator = false ∧
      ¬ (name = "." ∨ name = "..") ∧ ¬ collides name.toList = true := by
    rw [nameFault?, ← dots]
    split_ifs with separator reserved collision
    · simp [separator]
    · exact ⟨nofun, fun h => absurd reserved h.2.1⟩
    · exact ⟨nofun, fun h => absurd collision h.2.2⟩
    · exact ⟨fun _ => ⟨Bool.not_eq_true _ ▸ separator, reserved, collision⟩, fun _ => rfl⟩
  rw [check, any_isSeparator_eq_false_iff, collides_iff, ← settings]
  constructor
  · rintro ⟨⟨slash, backslash, nul⟩, reserved, collision⟩
    refine ⟨slash, backslash, nul, fun h => reserved (.inl h), fun h => reserved (.inr h),
      fun h => collision (.inl h), fun h => collision (.inr (.inl h)), ?_⟩
    intro digits filled ascii same
    exact collision (.inr (.inr ⟨digits, filled, ascii, eq_ofList_append_iff.mp same⟩))
  · intro h
    refine ⟨⟨h.noSlash, h.noBackslash, h.noNul⟩, not_or.mpr ⟨h.notHere, h.notUp⟩, ?_⟩
    rintro (same | ledger | ⟨digits, filled, ascii, same⟩)
    · exact h.notSettings same
    · exact h.notLedger ledger
    · exact h.notImage digits filled ascii (eq_ofList_append_iff.mpr same)

theorem isAllowed_name (p : Project) : IsAllowed p.name := nameFault?_eq_none_iff.mp p.valid

theorem ofName_name (p : Project) : ofName p.name = .ok p := by
  obtain ⟨name, valid⟩ := p
  rw [ofName]
  split
  · rfl
  · rename_i fault found
    exact absurd (valid.symm.trans found) nofun

/-- A name that is accepted is that of the project. -/
theorem ofName_eq_ok_iff : ofName name = .ok p ↔ p.name = name := by
  constructor
  · intro h
    rw [ofName] at h
    split at h
    · exact congrArg Project.name (Except.ok.inj h).symm
    · exact absurd h nofun
  · rintro rfl
    exact ofName_name p

theorem exists_ofName_iff : (∃ p, ofName name = .ok p) ↔ IsAllowed name := by
  constructor
  · rintro ⟨p, h⟩
    exact ofName_eq_ok_iff.mp h ▸ isAllowed_name p
  · intro h
    exact ⟨⟨name, nameFault?_eq_none_iff.mpr h⟩, ofName_eq_ok_iff.mpr rfl⟩

/-! ## Documents -/

theorem toOption_eq_some_iff {ε α : Type} {x : Except ε α} {a : α} :
    x.toOption = some a ↔ x = .ok a := by
  cases x <;> simp [Except.toOption]

/-- A document that spells a string stands for the project of that name, if there is one. -/
theorem ofJson?_of_spells {s : String} {text doc : Bytes} (h : SpellsString s text)
    (hdoc : Padded text doc) : ofJson? doc = (ofText s).toOption := by
  rw [ofJson?, Json.whole?_string?_eq_some_iff.mpr ⟨text, h, hdoc⟩]

theorem ofJson?_eq_some_iff {doc : Bytes} : ofJson? doc = some p ↔
    ∃ text, SpellsString p.name text ∧ Padded text doc := by
  constructor
  · intro h
    rw [ofJson?] at h
    split at h
    · rename_i s read
      obtain rfl := ofName_eq_ok_iff.mp (toOption_eq_some_iff.mp h)
      exact Json.whole?_string?_eq_some_iff.mp read
    · exact absurd h nofun
  · rintro ⟨text, spells, padded⟩
    rw [ofJson?_of_spells spells padded]
    exact toOption_eq_some_iff.mpr (ofName_name p)

theorem ofJson?_toJson (p : Project) : ofJson? p.toJson = some p := by
  refine ofJson?_eq_some_iff.mpr ⟨Json.stringText p.name, Json.spellsString_stringText p.name, ?_⟩
  refine ⟨[], [], Json.isBlanks_nil, Json.isBlanks_nil, ?_⟩
  rw [toJson, Json.Value.compact, List.nil_append, List.append_nil]

/-- **There is no way around the check of names.** A name, a header, a text and a JSON document that
spells it are accepted or refused together, and accepted exactly if the name is allowed; the project
then has this name. Any document that is accepted is a string with an allowed name, and the document
of a project is read as the project. -/
theorem accepted_alike :
    (∀ s : String, ofHeader (some s) = ofName s ∧ ofText s = ofName s ∧
      (∀ text doc : Bytes, SpellsString s text → Padded text doc →
        ofJson? doc = (ofName s).toOption) ∧
      ((∃ p, ofName s = .ok p) ↔ IsAllowed s) ∧ ∀ p, ofName s = .ok p → p.name = s) ∧
    (∀ (doc : Bytes) (p : Project), ofJson? doc = some p ↔
      IsAllowed p.name ∧ ∃ text, SpellsString p.name text ∧ Padded text doc) ∧
    ∀ p : Project, ofJson? p.toJson = some p := by
  refine ⟨fun s => ⟨rfl, rfl, fun text doc spells padded => ofJson?_of_spells spells padded,
    exists_ofName_iff, fun p h => ofName_eq_ok_iff.mp h⟩, fun doc p => ?_, ofJson?_toJson⟩
  rw [ofJson?_eq_some_iff]
  exact ⟨fun h => ⟨isAllowed_name p, h⟩, And.right⟩

/-- The document ` "a\u002fb" ` is refused like the name `a/b`, and `"c\u0061ts"` is accepted like
`cats`. -/
theorem accepted_alike_escaped :
    ofJson? [32, 34, 97, 92, 117, 48, 48, 50, 102, 98, 34, 32] = none ∧
      ofJson? [34, 99, 92, 117, 48, 48, 54, 49, 116, 115, 34] = some ⟨"cats", by decide⟩ := by
  have plain : ∀ c : Char, c ≠ '"' → c ≠ '\\' → ¬ c.toNat < 32 →
      Json.Spelling c (String.utf8EncodeChar c) := fun c => .plain
  constructor
  · have slash : Json.Spelling '/' [92, 117, 48, 48, 50, 102] :=
      .unit ⟨48, 48, 50, 102, 0, 0, 2, 15, rfl, rfl, rfl, rfl, rfl, rfl⟩
    have spells : SpellsString "a/b" [34, 97, 92, 117, 48, 48, 50, 102, 98, 34] :=
      ⟨_, .cons (plain 'a' (by decide) (by decide) (by decide)) (.cons slash
        (.cons (plain 'b' (by decide) (by decide) (by decide)) .nil)), rfl⟩
    have blank : Json.IsBlanks [32] := fun b hb => List.mem_singleton.mp hb ▸ rfl
    have padded : Padded [34, 97, 92, 117, 48, 48, 50, 102, 98, 34]
        [32, 34, 97, 92, 117, 48, 48, 50, 102, 98, 34, 32] :=
      ⟨[32], [32], blank, blank, rfl⟩
    exact (accepted_alike.1 "a/b").2.2.1 _ _ spells padded
  · have letter : Json.Spelling 'a' [92, 117, 48, 48, 54, 49] :=
      .unit ⟨48, 48, 54, 49, 0, 0, 6, 1, rfl, rfl, rfl, rfl, rfl, rfl⟩
    have spells : SpellsString "cats" [34, 99, 92, 117, 48, 48, 54, 49, 116, 115, 34] :=
      ⟨_, .cons (plain 'c' (by decide) (by decide) (by decide)) (.cons letter
        (.cons (plain 't' (by decide) (by decide) (by decide))
          (.cons (plain 's' (by decide) (by decide) (by decide)) .nil))), rfl⟩
    exact (accepted_alike.1 "cats").2.2.1 _ _ spells
      ⟨[], [], Json.isBlanks_nil, Json.isBlanks_nil, rfl⟩

end ImageGateway.Project
