import ImageGateway.Text.Blank
import Mathlib.Data.List.TakeWhile

/-!
# Text without the white space around it

There is one text that another one is with white space around it, and that has none at its own ends
(`isTrimmed_iff`).
-/

set_option autoImplicit false

namespace ImageGateway.Text

variable {text core : List Char}

/-- A text is the other one with white space around it, and neither starts nor ends with white space
itself. -/
structure IsTrimmed (text core : List Char) : Prop where
  around : ∃ before after, text = before ++ core ++ after ∧ (∀ c ∈ before, isBlank c = true) ∧
    ∀ c ∈ after, isBlank c = true
  front : ∀ c, core.head? = some c → isBlank c = false
  back : ∀ c, core.getLast? = some c → isBlank c = false

/-- White space in front is passed over, up to the first other character. -/
theorem dropWhile_isBlank {before : List Char} (hbefore : ∀ c ∈ before, isBlank c = true)
    (hfront : ∀ c, core.head? = some c → isBlank c = false) :
    (before ++ core).dropWhile isBlank = core := by
  rw [List.dropWhile_append_of_pos hbefore]
  cases core with
  | nil => rfl
  | cons c rest => rw [List.dropWhile_cons_of_neg (by simp [hfront c rfl])]

/-- What comes after white space does not start with any. -/
theorem isBlank_head?_dropWhile (text : List Char) :
    ∀ c, (text.dropWhile isBlank).head? = some c → isBlank c = false := by
  induction text with
  | nil => exact fun c none => absurd none (by simp)
  | cons first rest ih =>
    cases blank : isBlank first with
    | true => rwa [List.dropWhile_cons_of_pos blank]
    | false =>
      rw [List.dropWhile_cons_of_neg (by simp [blank])]
      rintro c same
      obtain rfl := Option.some.inj same
      exact blank

/-- There is one such text. -/
theorem isTrimmed_iff : IsTrimmed text core ↔ core = trim text := by
  rw [trim]
  constructor
  · rintro ⟨⟨before, after, rfl, hbefore, hafter⟩, front, back⟩
    have blank : ∀ c ∈ after.reverse, isBlank c = true :=
      fun c listed => hafter c (List.mem_reverse.mp listed)
    have last : ∀ c, core.reverse.head? = some c → isBlank c = false := by
      rw [List.head?_reverse]
      exact back
    cases core with
    | nil =>
      have all : (before ++ [] ++ after).dropWhile isBlank = [] := by
        rw [List.dropWhile_eq_nil_iff, List.append_nil]
        exact fun c listed => (List.mem_append.mp listed).elim (hbefore c) (hafter c)
      rw [all]
      rfl
    | cons c rest =>
      have dropped : (before ++ (c :: rest ++ after)).dropWhile isBlank = c :: rest ++ after :=
        dropWhile_isBlank hbefore front
      rw [List.append_assoc, dropped, List.reverse_append, dropWhile_isBlank blank last,
        List.reverse_reverse]
  · rintro rfl
    -- the white space at the end is what is in front of the text read backwards
    have back : ((text.dropWhile isBlank).reverse.dropWhile isBlank).reverse ++
        ((text.dropWhile isBlank).reverse.takeWhile isBlank).reverse = text.dropWhile isBlank := by
      rw [← List.reverse_append, List.takeWhile_append_dropWhile, List.reverse_reverse]
    refine ⟨⟨text.takeWhile isBlank, ((text.dropWhile isBlank).reverse.takeWhile isBlank).reverse,
      ?_, fun c => List.mem_takeWhile_imp, fun c listed =>
        List.mem_takeWhile_imp (List.mem_reverse.mp listed)⟩, fun c first => ?_, fun c last => ?_⟩
    · rw [List.append_assoc, back, List.takeWhile_append_dropWhile]
    · refine isBlank_head?_dropWhile text c ?_
      rw [← back, List.head?_append, first]
      rfl
    · rw [List.getLast?_reverse] at last
      exact isBlank_head?_dropWhile _ c last

end ImageGateway.Text
